import Mathlib.Logic.Function.Basic
import Mathlib.Tactic.Cases

namespace Ecos.Lib

/-!
# Three-wire serial EEPROMs

A memory behind three wires: chip select, clock and data in.  While the chip is selected, a rising
edge of the clock takes in a bit.  A command is a start bit with two more bits, an address of `a`
bits and, for a write, a word of `d` bits, the most significant bits first.

* `lowBits`, `wordOf` — words and their bits;
* `Command`, `decode` — what the bits that were clocked in mean;
* `Eeprom`, `Eeprom.drive`, `Eeprom.elapse` — the chip, what new levels of the wires do to it, and
  time.  What the protocol leaves open is a parameter, `Freedom`;
* `Eeprom.Loaded` — the bits of a command are in the chip;
* `Loaded.clock`, `Loaded.release`, `Loaded.enable`, `Loaded.write` — a further bit, and the end of
  a command.
-/

/-! ### Words and bits -/

/-- The `n` low bits of a word, the most significant one first, as they are sent. -/
def lowBits {w : Nat} : Nat → BitVec w → List Bool
  | 0, _ => []
  | n + 1, x => x.getLsbD n :: lowBits n x

/-- The word of some bits, the most significant one first, as they are received. -/
def wordOf (n : Nat) (bits : List Bool) : BitVec n := (BitVec.ofBoolListBE bits).setWidth n

/-- There are `n` low bits, also when the word has fewer of its own. -/
@[simp] theorem length_lowBits {w : Nat} (n : Nat) (x : BitVec w) :
    (lowBits n x).length = n := by
  induction n with
  | zero => rfl
  | succ n ih => rw [lowBits, List.length_cons, ih]

/-- The low bits are listed the highest one first, as they are sent. -/
theorem getD_lowBits {w : Nat} {n : Nat} (x : BitVec w) {j : Nat} (hj : j < n) :
    (lowBits n x).getD j false = x.getLsbD (n - 1 - j) := by
  induction n generalizing j with
  | zero => omega
  | succ n ih =>
    cases j with
    | zero => rfl
    | succ j =>
      have hsub : n + 1 - 1 - (j + 1) = n - 1 - j := by omega
      rw [lowBits, List.getD_cons_succ, ih (by omega), hsub]

/-- The word of the low bits of `x` is `x`, cut down to them. -/
theorem wordOf_lowBits {w : Nat} (n : Nat) (x : BitVec w) :
    wordOf n (lowBits n x) = x.setWidth n := by
  apply BitVec.eq_of_getLsbD_eq
  intro i hi
  have hsub : n - 1 - (n - 1 - i) = i := by omega
  rw [wordOf, BitVec.getLsbD_setWidth, BitVec.getLsbD_ofBoolListBE, length_lowBits,
    getD_lowBits x (by omega), hsub, BitVec.getLsbD_setWidth]
  simp [hi]

/-! ### Commands -/

/-- A complete command: reading or writing a word, enabling the writes, or one that is left open. -/
inductive Command (a d : Nat)
  | read (addr : BitVec a)
  | write (addr : BitVec a) (word : BitVec d)
  /-- Writing is enabled. -/
  | enable
  /-- One of the other commands. -/
  | other

/-- The command that the bits are, from the start bit on; none while bits are missing. -/
def decode (a d : Nat) (bits : List Bool) : Option (Command a d) :=
  match bits with
  | true :: true :: false :: rest =>
    if a ≤ rest.length then some (.read (wordOf a (rest.take a))) else none
  | true :: false :: true :: rest =>
    if rest.length = a + d then some (.write (wordOf a (rest.take a)) (wordOf d (rest.drop a)))
    else none
  | true :: false :: false :: true :: true :: rest =>
    if rest.length + 2 = a then some .enable else none
  | _ :: _ :: _ :: rest => if a ≤ rest.length then some .other else none
  | _ => none

/-- Bits that the chip does not act upon when they are complete: there is no command yet, or it is
    a read. -/
def Silent (a d : Nat) (bits : List Bool) : Prop :=
  ∀ c, decode a d bits = some c → ∃ addr, c = .read addr

/-! ### The chip -/

/-- What the chip keeps when it is not selected. -/
structure Cells (a d : Nat) where
  mem : BitVec a → BitVec d
  /-- Are writes enabled? -/
  enabled : Bool

/-- What goes on at the wires: bits are taken in, or a write cycle takes its time. -/
inductive Phase
  /-- These bits were taken in since the chip was selected, from the start bit on. -/
  | input (bits : List Bool)
  /-- A write cycle takes so many more ticks.  When it is over, the chip reports that it is ready
      until the next start bit. -/
  | cycle (left : Nat)

/-- The EEPROM: its cells, its wires, and the command that is under way. -/
structure Eeprom (a d : Nat) extends Cells a d where
  /-- chip select -/
  cs : Bool
  /-- the clock -/
  sk : Bool
  phase : Phase

/-- What the protocol leaves open, and the chip may do either way. -/
structure Freedom (a d : Nat) where
  /-- The length of a write cycle that starts, and of what is left of one. -/
  left : Nat
  /-- Is a command carried out with its last bit, or not before the chip is released? -/
  early : Bool
  /-- Does a clock edge count that comes together with the selection of the chip? -/
  together : Bool
  /-- What one of the other commands does. -/
  other : Eeprom a d

namespace Eeprom

variable {a d : Nat}

/-- A complete command is carried out, when the chip is deselected. -/
def execute (o : Freedom a d) (e : Eeprom a d) : Eeprom a d :=
  match e.phase with
  | .cycle _ => e
  | .input bits =>
    match decode a d bits with
    | none => e
    | some (.read _) => e
    | some (.write addr word) =>
      if e.enabled then
        { e with mem := Function.update e.mem addr word, phase := .cycle o.left }
      else e
    | some .enable => { e with enabled := true }
    | some .other => o.other

/-- The chip is not selected: it forgets the bits, and a write cycle goes on. -/
def release (e : Eeprom a d) : Eeprom a d :=
  match e.phase with
  | .cycle _ => e
  | .input _ => { e with phase := .input [] }

/-- A bit is taken in; in front of a command, only a start bit counts. -/
def clock (di : Bool) (e : Eeprom a d) : Eeprom a d :=
  match e.phase with
  | .cycle _ => if di then { e with phase := .input [true] } else e
  | .input [] => if di then { e with phase := .input [true] } else e
  | .input bits => { e with phase := .input (bits ++ [di]) }

/-- New levels of the wires.  During a write cycle they are ignored. -/
def drive (o : Freedom a d) (cs sk di : Bool) (e : Eeprom a d) : Eeprom a d :=
  let e' := { e with cs, sk }
  match e.phase with
  | .cycle (n + 1) => { e' with phase := .cycle (min o.left (n + 1)) }
  | _ =>
    if cs = false then (e'.execute o).release
    else if e.sk = false ∧ sk = true ∧ (e.cs = true ∨ o.together = true) then
      if o.early then (e'.clock di).execute o else e'.clock di
    else e'

/-- Time passes: of a write cycle, at most `m` ticks are left. -/
def elapse (t m : Nat) (e : Eeprom a d) : Eeprom a d :=
  match e.phase with
  | .cycle n => { e with phase := .cycle (min m (n - t)) }
  | .input _ => e

/-- What the chip sends while it is selected: the status after a write cycle, or the word of a read
    with `lead` zeros in front of it. -/
def dataOut (lead : Nat) (e : Eeprom a d) : Option Bool :=
  match e.phase with
  | .cycle n => some (n = 0)
  | .input bits =>
    match decode a d bits with
    | some (.read addr) =>
      let k := bits.length - (3 + a)
      if k < lead then some false
      else if k < lead + d then some ((e.mem addr).getMsbD (k - lead))
      else none
    | _ => none

/-- The chip is not busy, and has no command to carry out. -/
def Idle (e : Eeprom a d) : Prop :=
  e.phase = .cycle 0 ∨ ∃ bits, e.phase = .input bits ∧ Silent a d bits

/-- A write cycle of at most `n` ticks, or the status after it. -/
def Cycling (n : Nat) (c : Cells a d) (e : Eeprom a d) : Prop :=
  e.toCells = c ∧ ∃ k ≤ n, e.phase = .cycle k

/-- A chip with the cells `c` has taken in these bits.  If they are a command, it may have carried
    it out already, with a write cycle of at most `bound` ticks. -/
inductive Loaded (bound : Nat) (c : Cells a d) : List Bool → Eeprom a d → Prop
  | ready {e : Eeprom a d} (hcells : e.toCells = c) (hphase : e.phase = .cycle 0) :
      Loaded bound c [] e
  | bits {bits : List Bool} {e : Eeprom a d} (hcells : e.toCells = c)
      (hphase : e.phase = .input bits) : Loaded bound c bits e
  | executed {bits : List Bool} {e : Eeprom a d} {o : Freedom a d} (hcells : e.toCells = c)
      (hphase : e.phase = .input bits) (hleft : o.left ≤ bound) :
      Loaded bound c bits (e.execute o)

end Eeprom

/-! ### Which bits are commands -/

section Commands

variable {a d : Nat} {bits rest : List Bool}

/-- Too few bits for a command, whatever they are. -/
theorem silent_short (h : bits.length < 3 + a) : Silent a d bits := by
  have hnone : decode a d bits = none := by
    unfold decode
    split
    · simp only [List.length_cons] at h
      rw [if_neg (by omega)]
    · simp only [List.length_cons] at h
      rw [if_neg (by omega)]
    · simp only [List.length_cons] at h
      rw [if_neg (by omega)]
    · simp only [List.length_cons] at h
      rw [if_neg (by omega)]
    · rfl
  intro c hc
  rw [hnone] at hc
  cases hc

/-- No bits are no command, so nothing is carried out after them. -/
theorem silent_nil : Silent a d [] := fun _ hc => nomatch hc

/-- A start bit is no command yet, so nothing is carried out after it alone. -/
theorem silent_start : Silent a d [true] := fun _ hc => nomatch hc

/-- A read is never carried out: its word is sent while the chip is selected. -/
theorem silent_read : Silent a d (true :: true :: false :: rest) := by
  intro c hc
  simp only [decode] at hc
  split at hc
  · exact ⟨_, (Option.some.inj hc).symm⟩
  · cases hc

/-- A write needs all its bits, and no more than these. -/
theorem silent_write (h : rest.length ≠ a + d) : Silent a d (true :: false :: true :: rest) := by
  intro c hc
  simp only [decode, if_neg h] at hc
  cases hc

/-- The opcode `10` and an address are a read. -/
theorem decode_read {addr : List Bool} (h : addr.length = a) :
    decode a d (true :: true :: false :: (addr ++ rest)) = some (.read (wordOf a addr)) := by
  have hle : a ≤ (addr ++ rest).length := by
    rw [List.length_append]
    omega
  simp only [decode, if_pos hle, List.take_left' h]

/-- The opcode `01`, an address and a word are a write. -/
theorem decode_write {addr word : List Bool} (ha : addr.length = a) (hd : word.length = d) :
    decode a d (true :: false :: true :: (addr ++ word))
      = some (.write (wordOf a addr) (wordOf d word)) := by
  have hlen : (addr ++ word).length = a + d := by rw [List.length_append, ha, hd]
  simp only [decode, if_pos hlen, List.take_left' ha, List.drop_left' ha]

/-- The opcode `00` and an address that begins with `11` enable the writes. -/
theorem decode_enable (h : rest.length + 2 = a) :
    decode a d (true :: false :: false :: true :: true :: rest) = some .enable := by
  simp only [decode, if_pos h]

end Commands

namespace Eeprom

variable {a d bound t m n : Nat} {c : Cells a d} {e : Eeprom a d} {bits : List Bool}
  {o : Freedom a d} {cs sk b : Bool}

/-! ### Bits -/

/-- Bits that are no command do nothing when the chip is deselected. -/
theorem execute_silent (hs : Silent a d bits) (hphase : e.phase = .input bits) :
    e.execute o = e := by
  unfold execute
  rw [hphase]
  cases hdec : decode a d bits with
  | none => simp only [hdec]
  | some command =>
    obtain ⟨addr, rfl⟩ := hs command hdec
    simp only [hdec]

/-- As long as the bits are no command, nothing has happened yet. -/
theorem Loaded.phase (h : Loaded bound c bits e) (hs : Silent a d bits) :
    e.toCells = c ∧ (e.phase = .input bits ∨ bits = [] ∧ e.phase = .cycle 0) := by
  cases h with
  | ready hcells hphase => exact ⟨hcells, Or.inr ⟨rfl, hphase⟩⟩
  | bits hcells hphase => exact ⟨hcells, Or.inl hphase⟩
  | executed hcells hphase hleft =>
    rw [execute_silent hs hphase]
    exact ⟨hcells, Or.inl hphase⟩

/-- The bits are loaded while they are the input, and none are loaded behind a write cycle. -/
theorem Loaded.of_phase (hcells : e.toCells = c)
    (hphase : e.phase = .input bits ∨ bits = [] ∧ e.phase = .cycle 0) :
    Loaded bound c bits e := by
  rcases hphase with hphase | ⟨rfl, hphase⟩
  · exact .bits hcells hphase
  · exact .ready hcells hphase

/-- An idle chip holds some bits that are no command. -/
theorem Idle.loaded (h : e.Idle) (bound : Nat) :
    ∃ bits, Silent a d bits ∧ Loaded bound e.toCells bits e := by
  rcases h with hphase | ⟨bits, hphase, hs⟩
  · exact ⟨[], silent_nil, .ready rfl hphase⟩
  · exact ⟨bits, hs, .bits rfl hphase⟩

/-- An EEPROM whose bits are no command is idle, also while it is selected. -/
theorem Loaded.idle (h : Loaded bound c bits e) (hs : Silent a d bits) : e.Idle := by
  rcases (h.phase hs).2 with hphase | ⟨-, hphase⟩
  · exact Or.inr ⟨bits, hphase, hs⟩
  · exact Or.inl hphase

/-- Nothing is carried out by an idle chip: its bits are no command, or it reads. -/
theorem Idle.execute (h : e.Idle) : e.execute o = e := by
  rcases h with hphase | ⟨bits, hphase, hs⟩
  · simp only [Eeprom.execute, hphase]
  · exact execute_silent hs hphase

/-- Without a write cycle, the chip follows the wires: an edge takes a bit in, a deselection ends
    the command. -/
theorem drive_ready (h : ∀ k, e.phase ≠ .cycle (k + 1)) : e.drive o cs sk b =
    if cs = false then ({ e with cs, sk }.execute o).release
    else if e.sk = false ∧ sk = true ∧ (e.cs = true ∨ o.together = true) then
      if o.early then ({ e with cs, sk }.clock b).execute o else { e with cs, sk }.clock b
    else { e with cs, sk } := by
  unfold drive
  split
  · rename_i k hphase
    exact absurd hphase (h k)
  · rfl

/-- A chip that takes in a command is in no write cycle. -/
theorem Loaded.not_cycling (h : Loaded bound c bits e) (hs : Silent a d bits) (k : Nat) :
    e.phase ≠ .cycle (k + 1) := by
  rcases (h.phase hs).2 with hphase | ⟨-, hphase⟩
  · rw [hphase]
    rintro ⟨⟩
  · rw [hphase]
    rintro ⟨⟩

/-- The levels of the wires are no part of what it has taken in. -/
theorem Loaded.levels (h : Loaded bound c bits e) (hs : Silent a d bits) (cs sk : Bool) :
    Loaded bound c bits { e with cs, sk } := by
  obtain ⟨hcells, hphase⟩ := h.phase hs
  exact .of_phase hcells hphase

/-- The chip is selected, or stays selected, with the clock low: nothing is taken in. -/
theorem Loaded.low (h : Loaded bound c bits e) (hs : Silent a d bits) :
    Loaded bound c bits (e.drive o true false b) ∧ (e.drive o true false b).cs = true ∧
      (e.drive o true false b).sk = false := by
  have hdrive : e.drive o true false b = { e with cs := true, sk := false } := by
    rw [drive_ready (h.not_cycling hs), if_neg (by decide), if_neg]
    rintro ⟨-, ⟨⟩, -⟩
  rw [hdrive]
  exact ⟨h.levels hs true false, rfl, rfl⟩

/-- Time does nothing to an EEPROM whose bits are no command. -/
theorem Loaded.elapse (h : Loaded bound c bits e) (hs : Silent a d bits) :
    Loaded bound c bits (e.elapse t m) := by
  obtain ⟨hcells, hphase⟩ := h.phase hs
  have helapse : e.elapse t m = e := by
    rcases hphase with hphase | ⟨-, hphase⟩
    · simp only [Eeprom.elapse, hphase]
    · unfold Eeprom.elapse
      rw [hphase]
      simp only [Nat.zero_sub, Nat.min_zero]
      rw [← hphase]
  rwa [helapse]

/-- Time does not move the chip select, which only the driver sets. -/
@[simp] theorem elapse_cs : (e.elapse t m).cs = e.cs := by
  unfold elapse
  split
  · rfl
  · rfl

/-- Time does not move the clock, which only the driver sets. -/
@[simp] theorem elapse_sk : (e.elapse t m).sk = e.sk := by
  unfold elapse
  split
  · rfl
  · rfl

/-- A bit after other bits, or a start bit, is taken in; a zero before the start bit is not. -/
theorem Loaded.clock (h : Loaded bound c bits e) (hs : Silent a d bits)
    (hstart : bits = [] → b = true) :
    (e.clock b).toCells = c ∧ (e.clock b).phase = .input (bits ++ [b]) := by
  obtain ⟨hcells, hphase | ⟨rfl, hphase⟩⟩ := h.phase hs
  · unfold Eeprom.clock
    rw [hphase]
    cases bits with
    | nil =>
      rw [hstart rfl]
      exact ⟨hcells, rfl⟩
    | cons b' bits => exact ⟨hcells, rfl⟩
  · unfold Eeprom.clock
    rw [hphase, hstart rfl]
    exact ⟨hcells, rfl⟩

/-- **A rising edge** takes in a bit, which is how a command is sent. -/
theorem Loaded.rise (h : Loaded bound c bits e) (hs : Silent a d bits) (hcs : e.cs = true)
    (hsk : e.sk = false) (hstart : bits = [] → b = true) (hleft : o.left ≤ bound) :
    Loaded bound c (bits ++ [b]) (e.drive o true true b) := by
  obtain ⟨hcells, hphase⟩ := (h.levels hs true true).clock hs hstart
  rw [drive_ready (h.not_cycling hs), if_neg (by decide),
    if_pos ⟨hsk, rfl, Or.inl hcs⟩]
  split
  · exact .executed hcells hphase hleft
  · exact .bits hcells hphase

/-! ### The end of a command -/

/-- Bits that are no command are forgotten when the chip is no longer selected. -/
theorem Loaded.release (h : Loaded bound c bits e) (hs : Silent a d bits) :
    Loaded bound c [] (e.drive o false sk b) := by
  have hnew := h.levels hs false sk
  rw [drive_ready (h.not_cycling hs), if_pos rfl, (hnew.idle hs).execute]
  obtain ⟨hcells, hphase⟩ := hnew.phase hs
  unfold Eeprom.release
  rcases hphase with hphase | ⟨-, hphase⟩
  · rw [hphase]
    exact .bits hcells rfl
  · rw [hphase]
    exact .ready hcells rfl

/-- Writes are enabled when the command for it is deselected. -/
theorem Loaded.enable (h : Loaded bound c bits e) (hdec : decode a d bits = some .enable) :
    Loaded bound { c with enabled := true } [] (e.drive o false sk b) := by
  cases h with
  | ready hcells hphase => cases hdec
  | bits hcells hphase =>
    subst hcells
    refine .bits ?_ ?_ <;> simp [drive, hphase, execute, hdec, Eeprom.release]
  | executed hcells hphase hleft =>
    subst hcells
    refine .bits ?_ ?_ <;> simp [drive, hphase, execute, hdec, Eeprom.release]

/-- **A word is written** when its command is deselected, and the write cycle begins. -/
theorem Loaded.write (h : Loaded bound c bits e) {addr : BitVec a} {word : BitVec d}
    (hdec : decode a d bits = some (.write addr word)) (henabled : c.enabled = true)
    (hleft : o.left ≤ bound) :
    Cycling bound { c with mem := Function.update c.mem addr word } (e.drive o false sk b) := by
  cases h with
  | ready hcells hphase => cases hdec
  | bits hcells hphase =>
    subst hcells
    refine ⟨?_, o.left, hleft, ?_⟩
    · simp [drive, hphase, execute, hdec, henabled, Eeprom.release]
    · simp [drive, hphase, execute, hdec, henabled, Eeprom.release]
  | @executed bits e o' hcells hphase hleft' =>
    -- the write cycle began with the last bit
    subst hcells
    have hexecute : e.execute o' =
        { e with mem := Function.update e.mem addr word, phase := .cycle o'.left } := by
      simp [execute, hphase, hdec, henabled]
    rw [hexecute]
    cases hk : o'.left with
    | zero =>
      refine ⟨?_, 0, Nat.zero_le _, ?_⟩
      · simp [drive, execute, Eeprom.release]
      · simp [drive, execute, Eeprom.release]
    | succ k =>
      refine ⟨rfl, min o.left (k + 1), ?_, rfl⟩
      omega

/-! ### The write cycle -/

/-- During a write cycle, and after it as long as no bit is set, the chip keeps what it has. -/
theorem Cycling.drive (h : Cycling n c e) :
    Cycling n c (e.drive o cs sk false) ∧ (e.drive o cs sk false).cs = cs := by
  obtain ⟨hcells, k, hk, hphase⟩ := h
  cases k with
  | zero =>
    have hdrive : e.drive o cs sk false = { e with cs, sk } := by
      simp [Eeprom.drive, hphase, execute, Eeprom.release, Eeprom.clock]
    rw [hdrive]
    exact ⟨⟨hcells, 0, hk, hphase⟩, rfl⟩
  | succ k =>
    have hdrive : e.drive o cs sk false
        = { e with cs, sk, phase := .cycle (min o.left (k + 1)) } := by
      simp [Eeprom.drive, hphase]
    rw [hdrive]
    exact ⟨⟨hcells, min o.left (k + 1), by omega, rfl⟩, rfl⟩

/-- The write cycle gets shorter as time passes, whatever the wires do. -/
theorem Cycling.elapse (h : Cycling n c e) : Cycling (n - t) c (e.elapse t m) := by
  obtain ⟨hcells, k, hk, hphase⟩ := h
  have helapse : e.elapse t m = { e with phase := .cycle (min m (k - t)) } := by
    simp only [Eeprom.elapse, hphase]
  rw [helapse]
  exact ⟨hcells, min m (k - t), by omega, rfl⟩

/-- After the write cycle, the chip waits for a command with no bits taken in. -/
theorem Cycling.loaded (h : Cycling 0 c e) : Loaded bound c [] e := by
  obtain ⟨hcells, k, hk, hphase⟩ := h
  rw [Nat.le_zero.mp hk] at hphase
  exact .ready hcells hphase

/-- The first bit is a start bit, or it is ignored; either way nothing is carried out. -/
theorem Loaded.first (h : Loaded bound c [] e) :
    (e.clock b).Idle ∧ (e.clock b).toCells = c := by
  cases b with
  | false =>
    obtain ⟨hcells, hphase⟩ := h.phase silent_nil
    have hclock : e.clock false = e := by
      rcases hphase with hphase | ⟨-, hphase⟩
      · simp [Eeprom.clock, hphase]
      · simp [Eeprom.clock, hphase]
    rw [hclock]
    exact ⟨h.idle silent_nil, hcells⟩
  | true =>
    obtain ⟨hcells, hphase⟩ := h.clock silent_nil fun _ => rfl
    exact ⟨Or.inr ⟨[true], hphase, silent_start⟩, hcells⟩

/-- A chip that waits for a command is idle whatever the levels become: it takes in one bit at
    most. -/
theorem Loaded.any (h : Loaded bound c [] e) :
    (e.drive o cs sk b).Idle ∧ (e.drive o cs sk b).toCells = c := by
  cases cs with
  | false =>
    have hreleased : Loaded bound c [] (e.drive o false sk b) := h.release silent_nil
    exact ⟨hreleased.idle silent_nil, (hreleased.phase silent_nil).1⟩
  | true =>
    have hnew := h.levels silent_nil true sk
    rw [drive_ready (h.not_cycling silent_nil), if_neg (by decide)]
    split
    · -- a rising edge
      obtain ⟨hidle, hcells⟩ := hnew.first (b := b)
      rw [hidle.execute, ite_self]
      exact ⟨hidle, hcells⟩
    · exact ⟨hnew.idle silent_nil, (hnew.phase silent_nil).1⟩

end Eeprom

end Ecos.Lib
