import Ecos.Lib.SerialEeprom

namespace Ecos.Eth

open Ecos.Lib

/-!
# The MAC address in the EEPROM of the 8139

The model of `rltk8139_eeprom_read`, `rltk8139_eeprom_write` and the branch of `rltk8139_control`
that sets the MAC address.

* `Port` — the register `CR9346`, over the state of the card, and `cyg_thread_delay`;
* `eepromRead`, `eepromWrite`, `setMacAddress` — the functions, with their loops;
* `Follows` — behind the register there is a three-wire EEPROM;
* `eepromWrite_spec`, `eepromRead_spec` — the write stores the word, and the read changes nothing;
* `readSamples_eq` — the bits that the read sees are those of the word;
* `mac_eeprom` — but it returns zero.

`EEPROM_RD_DATA` declares a variable `read_data` of its own.  The function calls it with its own
`read_data` as the variable to shift the bits into, and this name then means the one of the macro.
-/

/-! ### The register -/

/-- The card as the functions see it, over its states: a parameter, since the chip is not part of
    the source. -/
structure Port (σ : Type) where
  /-- `HAL_WRITE_UINT8` of the register -/
  write : BitVec 8 → σ → σ
  /-- `HAL_READ_UINT8` of the register -/
  read : σ → BitVec 8
  /-- `cyg_thread_delay` -/
  delay : Nat → σ → σ

/-- The start bit and the opcode of a read, with the clock low. -/
def EEPROM_CMD_READ : BitVec 8 := 0x06

/-- The start bit and the opcode of a write. -/
def EEPROM_CMD_WRITE : BitVec 8 := 0x05

/-- The register drives the pins of the EEPROM: its programming mode is on. -/
def EEPROM_PG_ON : BitVec 8 := 0x80

/-- The bit of the register that drives the chip select. -/
def EEPROM_PG_EECS : BitVec 8 := 0x08

/-- The bit of the register that drives the clock. -/
def EEPROM_PG_EESK : BitVec 8 := 0x04

/-- The bit of the data line to the EEPROM. -/
def EEPROM_PG_EEDI : BitVec 8 := 0x02

/-- The bit of the data line from the EEPROM. -/
def EEPROM_PG_EEDO : BitVec 8 := 0x01

/-- How often the EEPROM is asked whether a write is done. -/
def EEPROM_WR_BUSY_RETRIES : Nat := 100

/-- `EEPROM_MASK`: the data line for the bit that a mask selects. -/
def eepromMask {w : Nat} (mask x : BitVec w) : BitVec 8 :=
  if mask &&& x ≠ 0 then EEPROM_PG_EEDI else 0

variable {σ : Type} (P : Port σ)

/-- `EEPROM_WR_DATAPULSE`: the data with the clock low, a delay, and the clock high. -/
def wrDatapulse (txdata : BitVec 8) (s : σ) : σ :=
  P.write (txdata ||| EEPROM_PG_EESK) (P.delay 0 (P.write txdata s))

/-- `EEPROM_RD_DATA`, with the value that its variable `read_data` has in the end. -/
def rdData (txdata : BitVec 8) (s : σ) : BitVec 16 × σ :=
  let s := P.delay 1 (P.write txdata s)
  let readData : BitVec 16 := (P.read s).setWidth 16
  let readData := readData <<< 1
  let readData := readData ||| (if readData &&& EEPROM_PG_EEDO.setWidth 16 ≠ 0 then 1 else 0)
  (readData, P.write (txdata ||| EEPROM_PG_EESK) s)

/-- The loops that send the bits of a command, an address or a word, from the one in `mask` on. -/
def sendBits {w : Nat} : Nat → BitVec w → BitVec w → σ → σ
  | 0, _, _, s => s
  | n + 1, mask, x, s =>
    sendBits n (mask >>> 1) x
      (wrDatapulse P (EEPROM_PG_ON ||| EEPROM_PG_EECS ||| eepromMask mask x) s)

/-! ### Reading and writing -/

/-- The loop of `rltk8139_eeprom_read` that reads the data; its macro declares a variable that
    hides the function's. -/
def readLoop : Nat → BitVec 8 → σ → BitVec 8 × σ
  | 0, readData, s => (readData, s)
  | n + 1, readData, s =>
    -- the variable of the macro goes out of scope, the one of the function was not touched
    let (_, s) := rdData P (EEPROM_PG_ON ||| EEPROM_PG_EECS) s
    readLoop n readData s

/-- `rltk8139_eeprom_read`: the command and the address are sent, and the word is read bit by
    bit. -/
def eepromRead (eepromCmd eepromAddr : BitVec 8) (s : σ) : BitVec 16 × σ :=
  let orgParam := P.read s
  -- ready
  let s := wrDatapulse P EEPROM_PG_ON s
  -- set command
  let s := sendBits P 3 0x04 eepromCmd s
  -- set address
  let s := sendBits P 6 0x20 eepromAddr s
  -- read data
  let (readData, s) := readLoop P 16 0 s
  -- close
  let s := P.write (EEPROM_PG_ON ||| EEPROM_PG_EECS) s
  let s := P.write EEPROM_PG_ON s
  -- put old parameter
  let s := P.write orgParam s
  (readData.setWidth 16, s)

/-- The register values that send EWEN (eeprom write enable), one after the other. -/
def ewen : List (BitVec 8) :=
  [EEPROM_PG_ON ||| EEPROM_PG_EECS ||| EEPROM_PG_EEDI,
    EEPROM_PG_ON ||| EEPROM_PG_EECS,
    EEPROM_PG_ON ||| EEPROM_PG_EECS,
    EEPROM_PG_ON ||| EEPROM_PG_EECS ||| EEPROM_PG_EEDI,
    EEPROM_PG_ON ||| EEPROM_PG_EECS ||| EEPROM_PG_EEDI,
    EEPROM_PG_ON ||| EEPROM_PG_EECS,
    EEPROM_PG_ON ||| EEPROM_PG_EECS,
    EEPROM_PG_ON ||| EEPROM_PG_EECS,
    EEPROM_PG_ON ||| EEPROM_PG_EECS]

/-- `diag_printf("EEPROM write wait error adr=0x%02x data=0x%04x\n", eeprom_addr, src_data)` -/
structure WaitError where
  eepromAddr : BitVec 8
  srcData : BitVec 16
  deriving DecidableEq, Repr

/-- The loop of `rltk8139_eeprom_write` that waits until the EEPROM is not busy, with so many
    retries left. -/
def waitBusy (error : WaitError) : Nat → σ → Option WaitError × σ
  | retries, s =>
    let s := P.delay 1 s
    let s := P.write (EEPROM_PG_ON ||| EEPROM_PG_EECS ||| EEPROM_PG_EESK) s
    let s := P.write (EEPROM_PG_ON ||| EEPROM_PG_EECS) s
    if P.read s &&& EEPROM_PG_EEDO ≠ 0 then (none, s)
    else
      match retries with
      | 0 => (some error, s)
      | retries + 1 => waitBusy error retries s

/-- `rltk8139_eeprom_write`: writes are enabled, the command is sent, and the end of the write
    cycle awaited. -/
def eepromWrite (eepromCmd eepromAddr : BitVec 8) (srcData : BitVec 16) (s : σ) :
    Option WaitError × σ :=
  let orgParam := P.read s
  -- ready
  let s := P.write EEPROM_PG_ON s
  let s := P.write (EEPROM_PG_ON ||| EEPROM_PG_EESK) s
  let s := P.write EEPROM_PG_ON s
  -- set EWEN
  let s := ewen.foldl (fun s txdata => wrDatapulse P txdata s) s
  let s := wrDatapulse P EEPROM_PG_ON s
  -- set command
  let s := sendBits P 3 0x04 eepromCmd s
  -- set address
  let s := sendBits P 6 0x20 eepromAddr s
  -- set data
  let s := sendBits P 16 0x8000 srcData s
  -- close
  let s := P.write EEPROM_PG_ON s
  let s := P.write (EEPROM_PG_ON ||| EEPROM_PG_EESK) s
  let s := P.write EEPROM_PG_ON s
  -- write ready check
  let s := P.write (EEPROM_PG_ON ||| EEPROM_PG_EECS) s
  let (error, s) := waitBusy P ⟨eepromAddr, srcData⟩ EEPROM_WR_BUSY_RETRIES s
  let s := P.write EEPROM_PG_ON s
  -- put old parameter
  let s := P.write orgParam s
  (error, s)

/-! ### The MAC address -/

/-- What the branch `ETH_DRV_SET_MAC_ADDRESS` of `rltk8139_control` changes: the copy in memory,
    the registers, the EEPROM. -/
structure MacState (σ : Type) where
  /-- `mac` of the `Rltk8139_t` -/
  mac : Nat → UInt8
  /-- The registers from `IDR0` on. -/
  idr : Nat → UInt8
  /-- The card, with its register `CR9346`. -/
  card : σ

/-- The loop that sets the MAC address, over these indices. -/
def macLoop (data : List UInt8) : List Nat → MacState σ → MacState σ
  | [], s => s
  | i :: is, s =>
    let mac := Function.update s.mac i (data.getD i 0)
    macLoop data is { s with mac, idr := Function.update s.idr i (mac i) }

/-- `WrData` for word `i`, from the two bytes at `pSrcData`. -/
def wrData (data : List UInt8) (i : Nat) : BitVec 16 :=
  ((data.getD (2 * i) 0).toBitVec.setWidth 16 &&& 0xff#16)
    ||| ((data.getD (2 * i + 1) 0).toBitVec.setWidth 16 <<< 8)

/-- The loop over `iRetry`, with so many rounds left: the value of `iRetry` after it. -/
def retryLoop (eepromAddr : BitVec 8) (word : BitVec 16) : Nat → Nat → σ → Nat × σ
  | 0, iRetry, s => (iRetry, s)
  | n + 1, iRetry, s =>
    let (_, s) := eepromWrite P EEPROM_CMD_WRITE eepromAddr word s
    let (readData, s) := eepromRead P EEPROM_CMD_READ eepromAddr s
    if readData = word then (iRetry, s) else retryLoop eepromAddr word n (iRetry + 1) s

/-- The loop over the words: the values of `iRetry`, with which the branch reports how often it had
    to try. -/
def wordLoop (data : List UInt8) : List Nat → σ → List Nat × σ
  | [], s => ([], s)
  | i :: is, s =>
    let (iRetry, s) := retryLoop P (BitVec.ofNat 8 (i + 7)) (wrData data i) 3 0 s
    let (iRetries, s) := wordLoop data is s
    (iRetry :: iRetries, s)

/-- The branch `ETH_DRV_SET_MAC_ADDRESS` of `rltk8139_control`, with the `data_length` bytes at
    `data`: the result, and the values of `iRetry`. -/
def setMacAddress (data : List UInt8) (s : MacState σ) : Nat × List Nat × MacState σ :=
  if 6 ≠ data.length then (1, [], s)
  else
    let s := macLoop data (List.range 6) s
    let (iRetries, card) := wordLoop P data (List.range 3) s.card
    (0, iRetries, { s with card })

/-! ### The EEPROM behind the register -/

/-- The level of a wire: while `EEPROM_PG_ON` is set, the wires follow the register. -/
def wire (mask txdata : BitVec 8) : Bool :=
  txdata &&& EEPROM_PG_ON ≠ 0 ∧ txdata &&& mask ≠ 0

/-- The most ticks that a write cycle may take for the driver to see its end. -/
def writeCycle : Nat := EEPROM_WR_BUSY_RETRIES + 1

/-- Behind the register there is an EEPROM with addresses of 6 bits and words of 16 bits, which
    sends `lead` zeros in front of a word; `chip` is its state.  A write cycle is over in the time
    that the driver waits for it. -/
structure Follows (P : Port σ) (chip : σ → Eeprom 6 16) (lead : Nat) : Prop where
  write : ∀ txdata s, ∃ o : Freedom 6 16, o.left ≤ writeCycle ∧
    chip (P.write txdata s) = (chip s).drive o (wire EEPROM_PG_EECS txdata)
      (wire EEPROM_PG_EESK txdata) (wire EEPROM_PG_EEDI txdata)
  delay : ∀ t s, ∃ m, chip (P.delay t s) = (chip s).elapse t m
  read : ∀ s b, (chip s).cs = true → (chip s).dataOut lead = some b →
    (P.read s &&& EEPROM_PG_EEDO ≠ 0 ↔ b = true)

variable {P} {chip : σ → Eeprom 6 16} {lead : Nat} {s : σ} {c : Cells 6 16} {bits : List Bool}

open Eeprom

/-- The register with the chip selected, the clock low and a bit. -/
def bitData (b : Bool) : BitVec 8 :=
  EEPROM_PG_ON ||| EEPROM_PG_EECS ||| (if b then EEPROM_PG_EEDI else 0)

/-- What a data bit puts on the wires: the chip is selected, and the clock is low. -/
theorem wire_bitData (b : Bool) : wire EEPROM_PG_EECS (bitData b) = true ∧
    wire EEPROM_PG_EESK (bitData b) = false ∧ wire EEPROM_PG_EEDI (bitData b) = b := by
  cases b with
  | false => decide
  | true => decide

/-- What it puts on the wires with the clock high. -/
theorem wire_bitData_clock (b : Bool) :
    wire EEPROM_PG_EECS (bitData b ||| EEPROM_PG_EESK) = true ∧
      wire EEPROM_PG_EESK (bitData b ||| EEPROM_PG_EESK) = true ∧
      wire EEPROM_PG_EEDI (bitData b ||| EEPROM_PG_EESK) = b := by
  cases b with
  | false => decide
  | true => decide

/-! ### Bits -/

/-- The chip is selected, and the clock is low for some time. -/
theorem Follows.low (F : Follows P chip lead) (h : Loaded writeCycle c bits (chip s))
    (hs : Silent 6 16 bits) (b : Bool) (t : Nat) :
    Loaded writeCycle c bits (chip (P.delay t (P.write (bitData b) s))) ∧
      (chip (P.delay t (P.write (bitData b) s))).cs = true ∧
      (chip (P.delay t (P.write (bitData b) s))).sk = false := by
  obtain ⟨o, -, hwrite⟩ := F.write (bitData b) s
  obtain ⟨m, hdelay⟩ := F.delay t (P.write (bitData b) s)
  obtain ⟨hcs, hsk, hdi⟩ := wire_bitData b
  rw [hcs, hsk, hdi] at hwrite
  obtain ⟨hloaded, hcs', hsk'⟩ := h.low hs (o := o) (b := b)
  rw [hdelay, hwrite, elapse_cs, elapse_sk]
  exact ⟨hloaded.elapse hs, hcs', hsk'⟩

/-- The clock rises, and the chip takes the bit in. -/
theorem Follows.rise (F : Follows P chip lead) (h : Loaded writeCycle c bits (chip s))
    (hs : Silent 6 16 bits) (hcs : (chip s).cs = true) (hsk : (chip s).sk = false) {b : Bool}
    (hstart : bits = [] → b = true) :
    Loaded writeCycle c (bits ++ [b]) (chip (P.write (bitData b ||| EEPROM_PG_EESK) s)) := by
  obtain ⟨o, hleft, hwrite⟩ := F.write (bitData b ||| EEPROM_PG_EESK) s
  obtain ⟨hcs', hsk', hdi'⟩ := wire_bitData_clock b
  rw [hwrite, hcs', hsk', hdi']
  exact h.rise hs hcs hsk hstart hleft

/-- **A pulse** sends a bit, as one turn of the loops does. -/
theorem Follows.pulse (F : Follows P chip lead) (h : Loaded writeCycle c bits (chip s))
    (hs : Silent 6 16 bits) {b : Bool} (hstart : bits = [] → b = true) :
    Loaded writeCycle c (bits ++ [b]) (chip (wrDatapulse P (bitData b) s)) := by
  obtain ⟨hlow, hcs, hsk⟩ := F.low h hs b 0
  exact F.rise hlow hs hcs hsk hstart

/-- Pulses send bits, as long as they are no command, by induction on the bits. -/
theorem Follows.pulses (F : Follows P chip lead) (bs : List Bool)
    (h : Loaded writeCycle c bits (chip s))
    (hs : ∀ l : List Bool, l.length < bs.length → Silent 6 16 (bits ++ l))
    (hstart : bits = [] → bs.head? = some true) :
    Loaded writeCycle c (bits ++ bs)
      (chip (bs.foldl (fun s b => wrDatapulse P (bitData b) s) s)) := by
  induction bs generalizing bits s with
  | nil =>
    rw [List.append_nil]
    exact h
  | cons b bs ih =>
    have hsilent : Silent 6 16 bits := by
      have hnone := hs [] (Nat.succ_pos _)
      rwa [List.append_nil] at hnone
    have hpulse := F.pulse h hsilent (b := b) fun hnil => by simpa using hstart hnil
    rw [List.append_cons]
    apply ih hpulse
    · intro l hl
      rw [← List.append_cons]
      exact hs (b :: l) (Nat.succ_lt_succ hl)
    · intro hnil
      simp at hnil

/-- The bit that a mask selects goes to the data pin, whatever the other bits of the word are. -/
theorem bitData_mask {w n : Nat} (hn : n < w) (x : BitVec w) :
    EEPROM_PG_ON ||| EEPROM_PG_EECS ||| eepromMask (BitVec.twoPow w n) x
      = bitData (x.getLsbD n) := by
  rw [eepromMask, BitVec.twoPow_and]
  cases hx : x.getLsbD n with
  | false => simp [bitData]
  | true =>
    have hne : BitVec.twoPow w n ≠ 0#w := by
      intro hzero
      have hclear := congrArg (fun y => y.getLsbD n) hzero
      simp only [BitVec.getLsbD_twoPow, BitVec.getLsbD_zero, decide_true, Bool.and_true,
        decide_eq_false_iff_not] at hclear
      exact hclear hn
    simp [bitData, hne]

/-- The mask moves on to the next lower bit when it is shifted. -/
theorem twoPow_shiftRight {w n : Nat} (hn : n + 1 < w) :
    BitVec.twoPow w (n + 1) >>> 1 = BitVec.twoPow w n := by
  apply BitVec.eq_of_getLsbD_eq
  intro i hi
  have hn' : n < w := by omega
  rw [BitVec.getLsbD_ushiftRight, BitVec.getLsbD_twoPow, BitVec.getLsbD_twoPow]
  simp [hn, hn', Nat.add_comm 1 i]

/-- The loops send the low bits of a word, from the one that the mask selects. -/
theorem sendBits_eq {w n : Nat} (hn : n < w) {mask : BitVec w} (x : BitVec w)
    (hmask : mask = BitVec.twoPow w n) :
    sendBits P (n + 1) mask x s
      = (lowBits (n + 1) x).foldl (fun s b => wrDatapulse P (bitData b) s) s := by
  subst hmask
  induction n generalizing s with
  | zero =>
    rw [sendBits, bitData_mask hn]
    rfl
  | succ n ih =>
    rw [sendBits, bitData_mask hn, twoPow_shiftRight hn, ih (by omega)]
    rfl

/-! ### The end of a command -/

/-- The chip is released before the bits are a command, and has forgotten them. -/
theorem Follows.release (F : Follows P chip lead) (h : Loaded writeCycle c bits (chip s))
    (hs : Silent 6 16 bits) (txdata : BitVec 8) (hcs : wire EEPROM_PG_EECS txdata = false) :
    Loaded writeCycle c [] (chip (P.write txdata s)) := by
  obtain ⟨o, -, hwrite⟩ := F.write txdata s
  rw [hwrite, hcs]
  exact h.release hs

/-- A pulse without a chip that is selected does nothing. -/
theorem Follows.released_pulse (F : Follows P chip lead) (h : Loaded writeCycle c [] (chip s)) :
    Loaded writeCycle c [] (chip (P.write (EEPROM_PG_ON ||| EEPROM_PG_EESK) (P.delay 0 s))) := by
  obtain ⟨m, hdelay⟩ := F.delay 0 s
  have hloaded : Loaded writeCycle c [] (chip (P.delay 0 s)) := by
    rw [hdelay]
    exact h.elapse silent_nil
  exact F.release hloaded silent_nil _ (by decide)

/-- Whatever is written into the register then, the chip is idle and keeps what it has. -/
theorem Follows.restore (F : Follows P chip lead) (h : Loaded writeCycle c [] (chip s))
    (txdata : BitVec 8) :
    (chip (P.write txdata s)).Idle ∧ (chip (P.write txdata s)).toCells = c := by
  obtain ⟨o, -, hwrite⟩ := F.write txdata s
  rw [hwrite]
  exact h.any

/-! ### Sending a command -/

/-- The loops for a command and an address send them, start bit first. -/
theorem Follows.command (F : Follows P chip lead) (h : Loaded writeCycle c [] (chip s))
    (cmd : BitVec 8) (hstart : cmd.getLsbD 2 = true) (adr : BitVec 8) :
    Loaded writeCycle c (lowBits 3 cmd ++ lowBits 6 adr)
      (chip (sendBits P 6 0x20 adr (sendBits P 3 0x04 cmd s))) := by
  have hcmd : sendBits P 3 0x04 cmd s
      = (lowBits 3 cmd).foldl (fun s b => wrDatapulse P (bitData b) s) s :=
    sendBits_eq (by decide) cmd (by decide)
  have hadr (s : σ) : sendBits P 6 0x20 adr s
      = (lowBits 6 adr).foldl (fun s b => wrDatapulse P (bitData b) s) s :=
    sendBits_eq (by decide) adr (by decide)
  rw [hcmd, hadr]
  have hfirst : Loaded writeCycle c (lowBits 3 cmd)
      (chip ((lowBits 3 cmd).foldl (fun s b => wrDatapulse P (bitData b) s) s)) := by
    refine F.pulses (lowBits 3 cmd) h (fun l hl => silent_short ?_) fun _ => ?_
    · have hlt : l.length < 3 := by simpa using hl
      rw [List.nil_append]
      omega
    · rw [lowBits, hstart]
      rfl
  refine F.pulses (lowBits 6 adr) hfirst (fun l hl => silent_short ?_) fun hnil => ?_
  · have hlt : l.length < 6 := by simpa using hl
    rw [List.length_append, length_lowBits]
    omega
  · cases hnil

/-! ### Writing -/

/-- The pulses that set EWEN, and the release of the chip behind them. -/
theorem Follows.enable (F : Follows P chip lead) (h : Loaded writeCycle c [] (chip s)) :
    Loaded writeCycle { c with enabled := true } [] (chip (wrDatapulse P EEPROM_PG_ON
      (ewen.foldl (fun s txdata => wrDatapulse P txdata s) s))) := by
  have hewen : ewen
      = [true, false, false, true, true, false, false, false, false].map bitData := by decide
  have hbits := F.pulses [true, false, false, true, true, false, false, false, false] h
    (fun l hl => silent_short hl) fun _ => rfl
  rw [hewen, List.foldl_map]
  obtain ⟨o, -, hwrite⟩ := F.write EEPROM_PG_ON
    ([true, false, false, true, true, false, false, false, false].foldl
      (fun s b => wrDatapulse P (bitData b) s) s)
  have hcs : wire EEPROM_PG_EECS EEPROM_PG_ON = false := by decide
  rw [hcs] at hwrite
  apply F.released_pulse
  rw [hwrite]
  exact hbits.enable (decode_enable rfl)

/-- The loops that send a write, and the release of the chip behind them. -/
theorem Follows.sendWrite (F : Follows P chip lead) (h : Loaded writeCycle c [] (chip s))
    (henabled : c.enabled = true) (adr : BitVec 8) (word : BitVec 16) :
    Cycling writeCycle { c with mem := Function.update c.mem (adr.setWidth 6) word }
      (chip (P.write EEPROM_PG_ON (sendBits P 16 0x8000 word
        (sendBits P 6 0x20 adr (sendBits P 3 0x04 EEPROM_CMD_WRITE s))))) := by
  have hcommand := F.command h EEPROM_CMD_WRITE (by decide) adr
  have hword (s : σ) : sendBits P 16 0x8000 word s
      = (lowBits 16 word).foldl (fun s b => wrDatapulse P (bitData b) s) s :=
    sendBits_eq (by decide) word (by decide)
  have hbits := F.pulses (lowBits 16 word) hcommand (fun l hl => ?_) fun hnil => ?_
  · obtain ⟨o, hleft, hwrite⟩ := F.write EEPROM_PG_ON (sendBits P 16 0x8000 word
      (sendBits P 6 0x20 adr (sendBits P 3 0x04 EEPROM_CMD_WRITE s)))
    have hcs : wire EEPROM_PG_EECS EEPROM_PG_ON = false := by decide
    rw [hcs] at hwrite
    rw [← hword] at hbits
    have hdec : decode 6 16 (lowBits 3 EEPROM_CMD_WRITE ++ lowBits 6 adr ++ lowBits 16 word)
        = some (.write (adr.setWidth 6) word) := by
      have hwrite := decode_write (length_lowBits 6 adr) (length_lowBits 16 word)
      rw [wordOf_lowBits, wordOf_lowBits, BitVec.setWidth_eq] at hwrite
      exact hwrite
    rw [hwrite]
    exact hbits.write hdec henabled hleft
  · -- the bits of the word are a command only when there are all 16 of them
    have hlt : l.length < 16 := by simpa using hl
    have hlen : (lowBits 6 adr ++ l).length ≠ 6 + 16 := by
      rw [List.length_append, length_lowBits]
      omega
    exact silent_write hlen
  · cases hnil

/-- During the write cycle, a write without a bit. -/
theorem Follows.cycling (F : Follows P chip lead) {n : Nat} (h : Cycling n c (chip s))
    (txdata : BitVec 8) (hdi : wire EEPROM_PG_EEDI txdata = false) :
    Cycling n c (chip (P.write txdata s)) ∧
      (chip (P.write txdata s)).cs = wire EEPROM_PG_EECS txdata := by
  obtain ⟨o, -, hwrite⟩ := F.write txdata s
  rw [hwrite, hdi]
  exact h.drive

variable (P) in
/-- The card after a turn of the loop that waits. -/
def waitTurn (s : σ) : σ :=
  P.write (EEPROM_PG_ON ||| EEPROM_PG_EECS)
    (P.write (EEPROM_PG_ON ||| EEPROM_PG_EECS ||| EEPROM_PG_EESK) (P.delay 1 s))

/-- A turn of the loop that waits takes a tick, and sees whether the write cycle is over. -/
theorem Follows.wait_turn (F : Follows P chip lead) {n : Nat} (h : Cycling (n + 1) c (chip s)) :
    Cycling n c (chip (waitTurn P s)) ∧
      (P.read (waitTurn P s) &&& EEPROM_PG_EEDO ≠ 0 ↔ Cycling 0 c (chip (waitTurn P s))) := by
  obtain ⟨m, hdelay⟩ := F.delay 1 s
  have htick : Cycling n c (chip (P.delay 1 s)) := by
    rw [hdelay]
    exact h.elapse
  obtain ⟨hhigh, -⟩ := F.cycling htick
    (EEPROM_PG_ON ||| EEPROM_PG_EECS ||| EEPROM_PG_EESK) (by decide)
  obtain ⟨hlow, hcs⟩ := F.cycling hhigh (EEPROM_PG_ON ||| EEPROM_PG_EECS) (by decide)
  have hselected : (chip (waitTurn P s)).cs = true := hcs.trans (by decide)
  refine ⟨hlow, ?_⟩
  obtain ⟨hcells, k, hk, hphase⟩ := hlow
  have hout : (chip (waitTurn P s)).dataOut lead = some (decide (k = 0)) := by
    unfold dataOut
    rw [show (chip (waitTurn P s)).phase = .cycle k from hphase]
  rw [F.read _ _ hselected hout, decide_eq_true_iff]
  constructor
  · rintro rfl
    exact ⟨hcells, 0, Nat.le_refl 0, hphase⟩
  · rintro ⟨-, k', hk', hphase'⟩
    have heq := Phase.cycle.inj (hphase.symm.trans hphase')
    omega

/-- **The wait for the write cycle** ends with the EEPROM ready, and not with an error. -/
theorem Follows.wait_busy (F : Follows P chip lead) (error : WaitError) {retries : Nat}
    (h : Cycling (retries + 1) c (chip s)) :
    (waitBusy P error retries s).1 = none ∧
      Cycling 0 c (chip (waitBusy P error retries s).2) := by
  induction retries generalizing s with
  | zero =>
    obtain ⟨hover, hread⟩ := F.wait_turn h
    have hturn : waitBusy P error 0 s = (none, waitTurn P s) := if_pos (hread.mpr hover)
    rw [hturn]
    exact ⟨rfl, hover⟩
  | succ retries ih =>
    obtain ⟨hturn, hread⟩ := F.wait_turn h
    by_cases hready : P.read (waitTurn P s) &&& EEPROM_PG_EEDO ≠ 0
    · have hstop : waitBusy P error (retries + 1) s = (none, waitTurn P s) := if_pos hready
      rw [hstop]
      exact ⟨rfl, hread.mp hready⟩
    · have hnext : waitBusy P error (retries + 1) s
          = waitBusy P error retries (waitTurn P s) := if_neg hready
      rw [hnext]
      exact ih hturn

/-- **A write stores the word** and leaves everything else alone; the EEPROM is idle afterwards,
    and no error is reported. -/
theorem eepromWrite_spec (F : Follows P chip lead) (hidle : (chip s).Idle) (adr : BitVec 8)
    (word : BitVec 16) :
    (eepromWrite P EEPROM_CMD_WRITE adr word s).1 = none ∧
      (chip (eepromWrite P EEPROM_CMD_WRITE adr word s).2).Idle ∧
      (chip (eepromWrite P EEPROM_CMD_WRITE adr word s).2).mem
        = Function.update (chip s).mem (adr.setWidth 6) word := by
  obtain ⟨bits, hs, hloaded⟩ := hidle.loaded writeCycle
  -- ready, and EWEN
  have hready := F.release hloaded hs EEPROM_PG_ON (by decide)
  have hready := F.release hready silent_nil
    (EEPROM_PG_ON ||| EEPROM_PG_EESK) (by decide)
  have hready := F.release hready silent_nil EEPROM_PG_ON (by decide)
  have henabled := F.enable hready
  -- the command; the release of the chip begins the write cycle
  have hcycle := F.sendWrite henabled rfl adr word
  obtain ⟨hcycle, -⟩ := F.cycling hcycle (EEPROM_PG_ON ||| EEPROM_PG_EESK) (by decide)
  obtain ⟨hcycle, -⟩ := F.cycling hcycle EEPROM_PG_ON (by decide)
  obtain ⟨hcycle, -⟩ := F.cycling hcycle (EEPROM_PG_ON ||| EEPROM_PG_EECS) (by decide)
  obtain ⟨hnone, hover⟩ := F.wait_busy ⟨adr, word⟩ hcycle
  obtain ⟨hover, -⟩ := F.cycling hover EEPROM_PG_ON (by decide)
  obtain ⟨hidle', hcells⟩ := F.restore hover.loaded (P.read s)
  refine ⟨hnone, hidle', ?_⟩
  exact congrArg Cells.mem hcells

/-! ### Reading -/

variable (P) in
/-- The card when the read starts to take in the word. -/
def readStart (adr : BitVec 8) (s : σ) : σ :=
  sendBits P 6 0x20 adr (sendBits P 3 0x04 EEPROM_CMD_READ (wrDatapulse P EEPROM_PG_ON s))

variable (P) in
/-- What `EEPROM_PG_EEDO` is in the turns of the loop that reads the data. -/
def readSamples : Nat → σ → List Bool
  | 0, _ => []
  | n + 1, s =>
    (P.read (P.delay 1 (P.write (EEPROM_PG_ON ||| EEPROM_PG_EECS) s)) &&& EEPROM_PG_EEDO ≠ 0)
      :: readSamples n (rdData P (EEPROM_PG_ON ||| EEPROM_PG_EECS) s).2

/-- The bits of a read, with `k` clocks behind the address. -/
def readBits (adr : BitVec 8) (k : Nat) : List Bool :=
  true :: true :: false :: (lowBits 6 adr ++ List.replicate k false)

/-- One clock more is one more bit that means nothing. -/
theorem readBits_succ (adr : BitVec 8) (k : Nat) :
    readBits adr (k + 1) = readBits adr k ++ [false] := by
  rw [readBits, List.replicate_succ', ← List.append_assoc]
  rfl

/-- The bits of a read, and the clocks behind them. -/
theorem length_readBits (adr : BitVec 8) (k : Nat) : (readBits adr k).length = 9 + k := by
  simp only [readBits, List.length_cons, List.length_append, length_lowBits, List.length_replicate]
  omega

/-- The register value for a zero bit: selected, with the data pin low. -/
theorem bitData_false : EEPROM_PG_ON ||| EEPROM_PG_EECS = bitData false := by decide

/-- The chip at the start of the loop that reads the data. -/
theorem Follows.readStart (F : Follows P chip lead) (hidle : (chip s).Idle) (adr : BitVec 8) :
    Loaded writeCycle (chip s).toCells (readBits adr 0) (chip (readStart P adr s)) := by
  obtain ⟨bits, hs, hloaded⟩ := hidle.loaded writeCycle
  have hready := F.release hloaded hs EEPROM_PG_ON (by decide)
  have hready := F.released_pulse hready
  have hcommand := F.command hready EEPROM_CMD_READ (by decide) adr
  rw [readBits, List.replicate_zero, List.append_nil]
  exact hcommand

/-- A turn of the loop that reads the data clocks the chip once. -/
theorem Follows.rdData (F : Follows P chip lead) {adr : BitVec 8} {k : Nat}
    (h : Loaded writeCycle c (readBits adr k) (chip s)) :
    Loaded writeCycle c (readBits adr (k + 1))
      (chip (rdData P (EEPROM_PG_ON ||| EEPROM_PG_EECS) s).2) := by
  have hs : Silent 6 16 (readBits adr k) := silent_read
  obtain ⟨hlow, hcs, hsk⟩ := F.low h hs false 1
  rw [readBits_succ, bitData_false]
  exact F.rise hlow hs hcs hsk nofun

/-- **A sample** is the bit that the chip sends. -/
theorem Follows.sample (F : Follows P chip lead) {adr : BitVec 8} {k : Nat}
    (h : Loaded writeCycle c (readBits adr k) (chip s)) (hk : k < lead + 16) :
    decide (P.read (P.delay 1 (P.write (EEPROM_PG_ON ||| EEPROM_PG_EECS) s)) &&& EEPROM_PG_EEDO
        ≠ 0)
      = if k < lead then false else (c.mem (adr.setWidth 6)).getMsbD (k - lead) := by
  have hs : Silent 6 16 (readBits adr k) := silent_read
  obtain ⟨hlow, hcs, -⟩ := F.low h hs false 1
  obtain ⟨hcells, hphase | ⟨hnil, -⟩⟩ := hlow.phase hs
  -- the bits are a read command, and the clocks behind it are the bits of the answer
  · have hdec : decode 6 16 (readBits adr k) = some (.read (adr.setWidth 6)) := by
      have hread : decode 6 16 (readBits adr k) = some (.read (wordOf 6 (lowBits 6 adr))) :=
        decode_read (length_lowBits 6 adr)
      rwa [wordOf_lowBits] at hread
    have hsub : (readBits adr k).length - (3 + 6) = k := by
      rw [length_readBits]
      omega
    have hout : (chip (P.delay 1 (P.write (bitData false) s))).dataOut lead
        = some (if k < lead then false else (c.mem (adr.setWidth 6)).getMsbD (k - lead)) := by
      unfold dataOut
      rw [hphase]
      dsimp only
      rw [hdec]
      dsimp only
      rw [hsub, if_pos hk, hcells]
      split
      · rfl
      · rfl
    have hread := F.read _ _ hcs hout
    rw [bitData_false, Bool.eq_iff_iff, decide_eq_true_iff]
    exact hread
  · cases hnil

/-- The loop gives back the `read_data` that it was given: it shifts into a variable of its own. -/
theorem readLoop_fst (n : Nat) (readData : BitVec 8) : (readLoop P n readData s).1 = readData := by
  induction n generalizing s with
  | zero => rfl
  | succ n ih => exact ih

/-- **The read returns zero**, whatever is behind the register. -/
theorem eepromRead_fst (cmd adr : BitVec 8) : (eepromRead P cmd adr s).1 = 0 := by
  have hloop := readLoop_fst (P := P) 16 0
    (s := sendBits P 6 0x20 adr (sendBits P 3 0x04 cmd (wrDatapulse P EEPROM_PG_ON s)))
  exact congrArg (BitVec.setWidth 16) hloop

/-- The read loop clocks the EEPROM on: after `n` rounds it has `n` more bits of the read
    command. -/
theorem Follows.readLoop (F : Follows P chip lead) {adr : BitVec 8} {k : Nat} (n : Nat)
    (readData : BitVec 8) (h : Loaded writeCycle c (readBits adr k) (chip s)) :
    Loaded writeCycle c (readBits adr (k + n)) (chip (readLoop P n readData s).2) := by
  induction n generalizing k s with
  | zero => exact h
  | succ n ih =>
    have hsum : k + (n + 1) = k + 1 + n := by omega
    rw [hsum]
    exact ih (F.rdData h)

/-- **A read changes nothing**; the EEPROM is idle afterwards. -/
theorem eepromRead_spec (F : Follows P chip lead) (hidle : (chip s).Idle) (adr : BitVec 8) :
    (chip (eepromRead P EEPROM_CMD_READ adr s).2).Idle ∧
      (chip (eepromRead P EEPROM_CMD_READ adr s).2).mem = (chip s).mem := by
  have hread := F.readLoop 16 0 (F.readStart hidle adr)
  obtain ⟨o, -, hwrite⟩ := F.write (EEPROM_PG_ON ||| EEPROM_PG_EECS)
    (readLoop P 16 0 (readStart P adr s)).2
  -- the chip is selected once more, then released
  have hlow : Loaded writeCycle (chip s).toCells (readBits adr (0 + 16))
      (chip (P.write (EEPROM_PG_ON ||| EEPROM_PG_EECS)
        (readLoop P 16 0 (readStart P adr s)).2)) := by
    rw [hwrite]
    exact (hread.low silent_read).1
  have hreleased := F.release hlow silent_read EEPROM_PG_ON (by decide)
  obtain ⟨hidle', hcells⟩ := F.restore hreleased (P.read s)
  exact ⟨hidle', congrArg Cells.mem hcells⟩

/-- The bits that the loop sees are those that the chip sends. -/
theorem readSamples_loop (F : Follows P chip lead) {adr : BitVec 8} {k : Nat} (n : Nat)
    (h : Loaded writeCycle c (readBits adr k) (chip s)) (hk : k + n ≤ lead + 16) :
    readSamples P n s = (List.range n).map fun i =>
      if k + i < lead then false else (c.mem (adr.setWidth 6)).getMsbD (k + i - lead) := by
  induction n generalizing k s with
  | zero => rfl
  | succ n ih =>
    rw [readSamples, F.sample h (by omega), ih (F.rdData h) (by omega), List.range_succ_eq_map,
      List.map_cons, List.map_map]
    refine congrArg _ (List.map_congr_left fun i _ => ?_)
    have hsum : k + 1 + i = k + (i + 1) := by omega
    rw [hsum]
    rfl

/-- **The loop sees the word**, behind the zeros in front of it. -/
theorem readSamples_eq (F : Follows P chip lead) (hidle : (chip s).Idle) (adr : BitVec 8) :
    wordOf 16 (readSamples P 16 (readStart P adr s))
      = (chip s).mem (adr.setWidth 6) >>> lead := by
  rw [readSamples_loop F 16 (F.readStart hidle adr) (by omega)]
  apply BitVec.eq_of_getLsbD_eq
  intro i hi
  rw [wordOf, BitVec.getLsbD_setWidth, BitVec.getLsbD_ofBoolListBE, BitVec.getLsbD_ushiftRight,
    List.length_map, List.length_range]
  have hlt : 16 - 1 - i < 16 := by omega
  simp only [hi, decide_true, Bool.true_and, List.getD_eq_getElem?_getD, List.getElem?_map,
    List.getElem?_range hlt, Option.map_some, Option.getD_some]
  split
  · -- a zero in front of the word
    rw [BitVec.getLsbD_of_ge _ _ (by omega)]
  · have hsub : 16 - 1 - (0 + (16 - 1 - i) - lead) = lead + i := by omega
    have hbit : 0 + (16 - 1 - i) - lead < 16 := by omega
    rw [BitVec.getMsbD_eq_getLsbD, decide_eq_true hbit, Bool.true_and, hsub]

/-! ### The MAC address in the EEPROM -/

/-- The rounds of a word: as the read returns zero, only zero is verified. -/
theorem retryLoop_fst (adr : BitVec 8) (word : BitVec 16) (n iRetry : Nat) :
    (retryLoop P adr word n iRetry s).1 = if word = 0 then iRetry else iRetry + n := by
  induction n generalizing iRetry s with
  | zero => rw [Nat.add_zero, ite_self, retryLoop]
  | succ n ih =>
    rw [retryLoop]
    dsimp only
    rw [eepromRead_fst]
    by_cases hzero : word = 0
    · rw [if_pos hzero.symm, if_pos hzero]
    · rw [if_neg (Ne.symm hzero), ih, if_neg hzero, if_neg hzero]
      omega

/-- The rounds, when there are any, store the word, whatever the polls answer; the chip is idle
    after them. -/
theorem retryLoop_spec (F : Follows P chip lead) (hidle : (chip s).Idle) (adr : BitVec 8)
    (word : BitVec 16) (n iRetry : Nat) :
    (chip (retryLoop P adr word n iRetry s).2).Idle ∧
      (chip (retryLoop P adr word n iRetry s).2).mem
        = if n = 0 then (chip s).mem
          else Function.update (chip s).mem (adr.setWidth 6) word := by
  induction n generalizing iRetry s with
  | zero => exact ⟨hidle, rfl⟩
  | succ n ih =>
    obtain ⟨-, hwritten, hmem⟩ := eepromWrite_spec F hidle adr word
    obtain ⟨hread, hsame⟩ := eepromRead_spec F hwritten adr
    rw [if_neg (Nat.succ_ne_zero n), retryLoop]
    dsimp only
    split
    · exact ⟨hread, hsame.trans hmem⟩
    · -- once more; the word is stored already
      obtain ⟨hidle', hmem'⟩ := ih hread (iRetry + 1)
      refine ⟨hidle', hmem'.trans ?_⟩
      rw [hsame, hmem, Function.update_idem, ite_self]

/-- The words in the EEPROM after the loop over them. -/
def storeWords (data : List UInt8) (is : List Nat) (mem : BitVec 6 → BitVec 16) :
    BitVec 6 → BitVec 16 :=
  is.foldl (fun mem i =>
    Function.update mem ((BitVec.ofNat 8 (i + 7)).setWidth 6) (wrData data i)) mem

/-- What the writes of the words return: no retry for a word of zero, and all three for any other,
    since zero is what is read back. -/
theorem wordLoop_fst (data : List UInt8) (is : List Nat) :
    (wordLoop P data is s).1 = is.map fun i => if wrData data i = 0 then 0 else 3 := by
  induction is generalizing s with
  | nil => rfl
  | cons i is ih =>
    rw [wordLoop, List.map_cons]
    dsimp only
    rw [retryLoop_fst, ih, Nat.zero_add]

/-- **The spec of the loop over the words.**  The EEPROM has stored them, and is idle. -/
theorem wordLoop_spec (F : Follows P chip lead) (hidle : (chip s).Idle) (data : List UInt8)
    (is : List Nat) :
    (chip (wordLoop P data is s).2).Idle ∧
      (chip (wordLoop P data is s).2).mem = storeWords data is (chip s).mem := by
  induction is generalizing s with
  | nil => exact ⟨hidle, rfl⟩
  | cons i is ih =>
    obtain ⟨hidle', hmem⟩ :=
      retryLoop_spec F hidle (BitVec.ofNat 8 (i + 7)) (wrData data i) 3 0
    obtain ⟨hdone, hstored⟩ := ih hidle'
    refine ⟨hdone, hstored.trans ?_⟩
    rw [hmem, if_neg (by decide)]
    rfl

/-- Byte `j` of the MAC address in the EEPROM: two bytes a word, from word 7 on, the low one
    first. -/
def macByte (mem : BitVec 6 → BitVec 16) (j : Nat) : BitVec 8 :=
  (mem (BitVec.ofNat 6 (7 + j / 2))).extractLsb' (8 * (j % 2)) 8

/-- The EEPROM was changed to hold exactly these bytes. -/
structure HoldsMac (data : List UInt8) (mem mem' : BitVec 6 → BitVec 16) : Prop where
  bytes : ∀ j < 6, macByte mem' j = (data.getD j 0).toBitVec
  others : ∀ x, x ≠ 7 → x ≠ 8 → x ≠ 9 → mem' x = mem x

variable (P chip) in
/-- The branch verifies each word at the first attempt, and leaves the bytes in the EEPROM. -/
structure MacStored (data : List UInt8) (s : MacState σ) : Prop where
  verified : (setMacAddress P data s).2.1 = [0, 0, 0]
  holds : HoldsMac data (chip s.card).mem (chip (setMacAddress P data s).2.2.card).mem

/-- The low byte of a word is the first of the two bytes it is made of. -/
theorem wrData_low (data : List UInt8) (i : Nat) :
    (wrData data i).extractLsb' 0 8 = (data.getD (2 * i) 0).toBitVec := by
  have hones : ∀ k < 8, (0xff#16).getLsbD k = true := by decide
  apply BitVec.eq_of_getLsbD_eq
  intro k hk
  have hk' : k < 16 := by omega
  rw [BitVec.getLsbD_extractLsb', wrData, BitVec.getLsbD_or, BitVec.getLsbD_and,
    BitVec.getLsbD_setWidth, BitVec.getLsbD_shiftLeft, Nat.zero_add, hones k hk]
  simp [hk, hk']

/-- The high byte of a word is the second of the two bytes it is made of. -/
theorem wrData_high (data : List UInt8) (i : Nat) :
    (wrData data i).extractLsb' 8 8 = (data.getD (2 * i + 1) 0).toBitVec := by
  apply BitVec.eq_of_getLsbD_eq
  intro k hk
  have hk' : 8 + k < 16 := by omega
  simp [wrData, hk, hk']

/-- A word is zero exactly when both of its bytes are. -/
theorem wrData_eq_zero (data : List UInt8) (i : Nat) :
    wrData data i = 0 ↔ data.getD (2 * i) 0 = 0 ∧ data.getD (2 * i + 1) 0 = 0 := by
  constructor
  · intro hzero
    have hlow := wrData_low data i
    have hhigh := wrData_high data i
    rw [hzero] at hlow hhigh
    exact ⟨UInt8.toBitVec_inj.mp hlow.symm, UInt8.toBitVec_inj.mp hhigh.symm⟩
  · rintro ⟨hlow, hhigh⟩
    rw [wrData, hlow, hhigh]
    decide

/-- The loop over the three words stores the bytes, and nothing else. -/
theorem storeWords_holds (data : List UInt8) (mem : BitVec 6 → BitVec 16) :
    HoldsMac data mem (storeWords data (List.range 3) mem) := by
  have hstore : storeWords data (List.range 3) mem = Function.update (Function.update
      (Function.update mem 7 (wrData data 0)) 8 (wrData data 1)) 9 (wrData data 2) := rfl
  rw [hstore]
  constructor
  · intro j hj
    have hcases : j = 0 ∨ j = 1 ∨ j = 2 ∨ j = 3 ∨ j = 4 ∨ j = 5 := by omega
    rcases hcases with rfl | rfl | rfl | rfl | rfl | rfl
    · exact wrData_low data 0
    · exact wrData_high data 0
    · exact wrData_low data 1
    · exact wrData_high data 1
    · exact wrData_low data 2
    · exact wrData_high data 2
  · intro x h7 h8 h9
    rw [Function.update_of_ne h9, Function.update_of_ne h8, Function.update_of_ne h7]

/-- The loop stores the bytes in the driver and in the registers, and does nothing else. -/
theorem macLoop_spec (data : List UInt8) (is : List Nat) (s : MacState σ) :
    (macLoop data is s).card = s.card ∧
      (∀ i, (macLoop data is s).mac i = if i ∈ is then data.getD i 0 else s.mac i) ∧
      ∀ i, (macLoop data is s).idr i = if i ∈ is then data.getD i 0 else s.idr i := by
  induction is generalizing s with
  | nil => exact ⟨rfl, fun i => (if_neg List.not_mem_nil).symm,
      fun i => (if_neg List.not_mem_nil).symm⟩
  | cons k is ih =>
    rw [macLoop]
    obtain ⟨hcard, hmac, hidr⟩ := ih { s with
      mac := Function.update s.mac k (data.getD k 0)
      idr := Function.update s.idr k (Function.update s.mac k (data.getD k 0) k) }
    refine ⟨hcard, fun i => (hmac i).trans ?_, fun i => (hidr i).trans ?_⟩
    · by_cases hi : i = k
      · subst hi
        simp
      · simp [hi]
    · by_cases hi : i = k
      · subst hi
        simp
      · simp [hi]

/-- The ioctl is its two loops: the one over the words of the EEPROM, and the one over the bytes of
    the interface. -/
theorem setMacAddress_eq {data : List UInt8} (hlen : data.length = 6) (s : MacState σ) :
    setMacAddress P data s
      = (0, (wordLoop P data (List.range 3) s.card).1,
        { macLoop data (List.range 6) s with
          card := (wordLoop P data (List.range 3) s.card).2 }) := by
  obtain ⟨hcard, -, -⟩ := macLoop_spec data (List.range 6) s
  rw [setMacAddress, if_neg (not_not_intro hlen.symm)]
  dsimp only
  rw [hcard]

/-- **Setting the address** leaves it in the driver, in the registers and in the EEPROM. -/
theorem setMacAddress_spec (F : Follows P chip lead) {s : MacState σ}
    (hidle : (chip s.card).Idle) {data : List UInt8} (hlen : data.length = 6) :
    (setMacAddress P data s).1 = 0 ∧
      (∀ i < 6, (setMacAddress P data s).2.2.mac i = data.getD i 0 ∧
        (setMacAddress P data s).2.2.idr i = data.getD i 0) ∧
      HoldsMac data (chip s.card).mem (chip (setMacAddress P data s).2.2.card).mem := by
  obtain ⟨-, hmac, hidr⟩ := macLoop_spec data (List.range 6) s
  rw [setMacAddress_eq hlen]
  refine ⟨rfl, fun i hi => ?_, ?_⟩
  · have hmem : i ∈ List.range 6 := List.mem_range.mpr hi
    exact ⟨(hmac i).trans (if_pos hmem), (hidr i).trans (if_pos hmem)⟩
  · have hmem := (wordLoop_spec F hidle data (List.range 3)).2
    dsimp only
    rw [hmem]
    exact storeWords_holds data (chip s.card).mem

/-- The words are verified at the first attempt when they are zero. -/
theorem setMacAddress_verified {data : List UInt8} (hlen : data.length = 6) (s : MacState σ) :
    (setMacAddress P data s).2.1 = [0, 0, 0] ↔ ∀ b ∈ data, b = 0 := by
  -- the six bytes are zero when the three words are
  have hbytes : (∀ b ∈ data, b = 0) ↔ ∀ i < 3, wrData data i = 0 := by
    constructor
    · intro hzero i hi
      have hget : ∀ j < 6, data.getD j 0 = 0 := by
        intro j hj
        have hlt : j < data.length := by omega
        rw [List.getD_eq_getElem?_getD, List.getElem?_eq_getElem hlt]
        exact hzero _ (List.getElem_mem hlt)
      exact (wrData_eq_zero data i).mpr ⟨hget _ (by omega), hget _ (by omega)⟩
    · intro hzero b hb
      obtain ⟨j, hj, rfl⟩ := List.getElem_of_mem hb
      obtain ⟨hlow, hhigh⟩ := (wrData_eq_zero data (j / 2)).mp (hzero _ (by omega))
      have hget : data.getD j 0 = data[j] := by
        rw [List.getD_eq_getElem?_getD, List.getElem?_eq_getElem hj]
        rfl
      rw [← hget]
      -- the even bytes are the low ones of a word, the odd bytes the high ones
      rcases Nat.mod_two_eq_zero_or_one j with hmod | hmod
      · rwa [show 2 * (j / 2) = j by omega] at hlow
      · rwa [show 2 * (j / 2) + 1 = j by omega] at hhigh
  -- a word that is zero returns before it is written, any other one runs out of retries
  have hiRetry : ∀ i, (if wrData data i = 0 then 0 else 3) = 0 ↔ wrData data i = 0 := by
    intro i
    split
    · rename_i hzero
      exact iff_of_true rfl hzero
    · rename_i hne
      exact iff_of_false nofun hne
  have hwords : (setMacAddress P data s).2.1
      = (List.range 3).map fun i => if wrData data i = 0 then 0 else 3 := by
    rw [setMacAddress_eq hlen]
    exact wordLoop_fst data (List.range 3)
  have hreplicate : [0, 0, 0] = List.replicate 3 0 := rfl
  rw [hwords, hbytes, hreplicate, List.eq_replicate_iff]
  constructor
  · rintro ⟨-, hall⟩ i hi
    exact (hiRetry i).mp (hall _ (List.mem_map.mpr ⟨i, List.mem_range.mpr hi, rfl⟩))
  · intro hzero
    refine ⟨rfl, fun iRetry hmem => ?_⟩
    obtain ⟨i, hi, rfl⟩ := List.mem_map.mp hmem
    exact (hiRetry i).mpr (hzero i (List.mem_range.mp hi))

/-- **The round trip.**  Whatever EEPROM there is, a word that was written is read back exactly when
    it is zero, and the words of a MAC address are verified exactly when the address is zero. -/
theorem mac_eeprom (F : Follows P chip lead) :
    (∀ s adr word, (eepromRead P EEPROM_CMD_READ adr
      (eepromWrite P EEPROM_CMD_WRITE adr word s).2).1 = word ↔ word = 0) ∧
    ∀ s : MacState σ, (chip s.card).Idle → ∀ data : List UInt8, data.length = 6 →
      (MacStored P chip data s ↔ ∀ b ∈ data, b = 0) := by
  constructor
  · intro s adr word
    rw [eepromRead_fst]
    exact eq_comm
  · intro s hidle data hlen
    obtain ⟨-, -, hholds⟩ := setMacAddress_spec F hidle hlen
    rw [← setMacAddress_verified (P := P) hlen s]
    exact ⟨fun h => h.verified, fun hverified => ⟨hverified, hholds⟩⟩

/-! ### An EEPROM -/

/-- A card with an EEPROM and the register.  A write cycle takes three ticks, and begins when the
    chip is released. -/
def plainPort (lead : Nat) : Port (Eeprom 6 16 × BitVec 8) where
  write txdata s :=
    (s.1.drive ⟨3, false, true, s.1⟩ (wire EEPROM_PG_EECS txdata) (wire EEPROM_PG_EESK txdata)
      (wire EEPROM_PG_EEDI txdata), txdata)
  read s :=
    if s.1.cs = true ∧ s.1.dataOut lead = some true then s.2 ||| EEPROM_PG_EEDO
    else s.2 &&& ~~~EEPROM_PG_EEDO
  delay t s := (s.1.elapse t writeCycle, s.2)

/-- The port of the plain EEPROM follows it, so the hypotheses on a port can be met. -/
theorem plainPort_follows (lead : Nat) : Follows (plainPort lead) Prod.fst lead where
  write txdata s := ⟨⟨3, false, true, s.1⟩, (by decide : 3 ≤ writeCycle), rfl⟩
  delay t s := ⟨writeCycle, rfl⟩
  read s b hcs hout := by
    have hset : ∀ x : BitVec 8, (x ||| EEPROM_PG_EEDO) &&& EEPROM_PG_EEDO ≠ 0 := by decide
    have hclear : ∀ x : BitVec 8, ¬(x &&& ~~~EEPROM_PG_EEDO) &&& EEPROM_PG_EEDO ≠ 0 := by decide
    cases b with
    | true =>
      have hread : (plainPort lead).read s = s.2 ||| EEPROM_PG_EEDO := if_pos ⟨hcs, hout⟩
      rw [hread]
      exact iff_of_true (hset s.2) rfl
    | false =>
      have hread : (plainPort lead).read s = s.2 &&& ~~~EEPROM_PG_EEDO := by
        refine if_neg ?_
        rw [hout]
        rintro ⟨-, heq⟩
        cases heq
      rw [hread]
      exact iff_of_false (hclear s.2) nofun

/-- An EEPROM that was never written, with the register at zero. -/
def erased : Eeprom 6 16 × BitVec 8 :=
  (⟨⟨fun _ => 0xffff, false⟩, false, false, .input []⟩, 0)

/-- The erased EEPROM is idle: nothing has been shifted into it. -/
theorem erased_idle : erased.1.Idle := Or.inr ⟨[], rfl, silent_nil⟩

/-- Zero is read back, and the address of zeros is verified and stored. -/
theorem mac_eeprom_zero :
    (eepromRead (plainPort 1) EEPROM_CMD_READ 7
      (eepromWrite (plainPort 1) EEPROM_CMD_WRITE 7 0 erased).2).1 = 0 ∧
    MacStored (plainPort 1) Prod.fst (List.replicate 6 0)
      ⟨fun _ => 0, fun _ => 0, erased⟩ := by
  obtain ⟨hround, hmac⟩ := mac_eeprom (plainPort_follows 1)
  refine ⟨(hround erased 7 0).mpr rfl, (hmac _ erased_idle _ List.length_replicate).mpr ?_⟩
  exact fun b hb => List.eq_of_mem_replicate hb

/-- **What was written is not read back.**  The word of the bytes 0 and 1 is read as zero. -/
theorem eeprom_read_loses : ¬∀ (σ : Type) (P : Port σ) (chip : σ → Eeprom 6 16) (lead : Nat),
    Follows P chip lead →
      (∀ s, (chip s).Idle → ∀ adr word, (eepromRead P EEPROM_CMD_READ adr
        (eepromWrite P EEPROM_CMD_WRITE adr word s).2).1 = word) ∧
      ∀ s : MacState σ, (chip s.card).Idle → ∀ data : List UInt8, data.length = 6 →
        MacStored P chip data s := by
  intro hall
  obtain ⟨hround, -⟩ := hall _ _ _ 1 (plainPort_follows 1)
  have hword := hround erased erased_idle 7 0x0100
  rw [eepromRead_fst] at hword
  revert hword
  decide

end Ecos.Eth
