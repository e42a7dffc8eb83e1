import Ecos.Lib.RingQueue
import Ecos.Lib.Run

namespace Ecos.Eth

open Ecos.Lib

/-!
# The transmit ring of the 8139 driver

The model of `rltk8139_send`, of the transmit part of `rltk8139_deliver`, and of `rltk8139_start`
and `rltk8139_reset`.

* `NumTxDesc`, `Rltk8139` — the number of descriptors, and the fields of the driver that the
  transmit ring is made of;
* `send`, `txLoop`, `deliver`, `start` — the functions of the driver, with the keys that they
  accept and complete;
* `Rltk8139.Holds` — the driver's fields are a queue in a ring;
* `tx_keys` — the accepted keys are the completed ones, those that a restart of the chip dropped
  and those in flight, in this order; so no key is lost exactly when the chip is never restarted
  with descriptors in flight.

The registers of the chip, the packet data and the rest of the receive part are left out.  What
the chip reports comes with the call, and so do the packets that the callbacks of the network
stack send in their turn.
-/

/-! ### The driver -/

/-- `NUM_TX_DESC`, a power of two, as the masks of the driver need it. -/
structure NumTxDesc where
  exp : Nat
  lt : exp < 32

/-- Its value, as the 32-bit word that the driver computes with. -/
def NumTxDesc.val (N : NumTxDesc) : BitVec 32 := BitVec.ofNat 32 (2 ^ N.exp)

/-- What the transmit ring uses of an `Rltk8139_t`: the keys, and the counters of the
    descriptors. -/
structure Rltk8139 (Key : Type) where
  /-- `tx_desc_key` -/
  txDescKey : Nat → Key
  /-- `tx_free_desc` -/
  txFreeDesc : BitVec 32
  /-- `tx_num_free_desc` -/
  txNumFreeDesc : BitVec 32
  /-- `tx_threshold` -/
  txThreshold : BitVec 32

/-- What happens to the keys, in the order in which it happens. -/
inductive Event (Key : Type)
  /-- `rltk8139_send` takes a packet. -/
  | sent (desc : Nat) (key : Key)
  /-- The callback `tx_done`. -/
  | txDone (desc : Nat) (key : Key) (status : Int)
  /-- `rltk8139_start`, with the keys that the descriptors in flight had. -/
  | started (inFlight : List (Nat × Key))
  deriving DecidableEq, Repr

variable {Key : Type} (N : NumTxDesc)

/-- The descriptors in flight with their keys: the `NUM_TX_DESC - tx_num_free_desc` ones that end
    just before `tx_free_desc`. -/
def Rltk8139.inFlight (s : Rltk8139 Key) : List (Nat × Key) :=
  (arc (2 ^ N.exp) (s.txFreeDesc.toNat + s.txNumFreeDesc.toNat)
    (2 ^ N.exp - s.txNumFreeDesc.toNat)).map fun desc => (desc, s.txDescKey desc)

/-- `rltk8139_can_send`, which tells the stack how many descriptors are free -/
def Rltk8139.canSend (s : Rltk8139 Key) : BitVec 32 := s.txNumFreeDesc

/-- `rltk8139_send`: without a free descriptor the packet is not taken, and otherwise its key is
    kept in the next one. -/
def send (s : Rltk8139 Key) (key : Key) : List (Event Key) × Rltk8139 Key :=
  if s.txNumFreeDesc = 0 then ([], s)
  else
    let desc := s.txFreeDesc
    ([.sent desc.toNat key],
      { s with
        txFreeDesc := (s.txFreeDesc + 1) &&& (N.val - 1)
        txNumFreeDesc := s.txNumFreeDesc - 1
        txDescKey := Function.update s.txDescKey desc.toNat key })

/-- Packets that are sent one after the other, as a callback may do. -/
def sends : List Key → Rltk8139 Key → List (Event Key) × Rltk8139 Key
  | [], s => ([], s)
  | key :: keys, s =>
    let (es, s) := send N s key
    let (es', s) := sends keys s
    (es ++ es', s)

/-- A read of the status of a descriptor, and what the callback that follows sends. -/
structure TxRead (Key : Type) where
  /-- `tsd & TUN` -/
  tun : Bool
  /-- `tsd & TOK` -/
  tok : Bool
  /-- `tsd & TABT` -/
  tabt : Bool
  sends : List Key
  deriving DecidableEq, Repr

/-- The loop of `rltk8139_deliver` over the descriptors in flight.  The reads end with the first
    one that finds a descriptor not ready. -/
def txLoop [Zero Key] : List (TxRead Key) → Rltk8139 Key → List (Event Key) × Rltk8139 Key
  | [], s => ([], s)
  | r :: rs, s =>
    if N.val ≤ s.txNumFreeDesc then ([], s)
    else
      let desc := (s.txFreeDesc - (N.val - s.txNumFreeDesc)) &&& (N.val - 1)
      let s :=
        if r.tun ∧ s.txThreshold < 64 then { s with txThreshold := s.txThreshold + 1 } else s
      if r.tok ∨ r.tabt then
        let done := Event.txDone desc.toNat (s.txDescKey desc.toNat) (if r.tok then 0 else -1)
        -- the callback may send
        let (es, s) := sends N r.sends s
        let s := { s with
          txDescKey := Function.update s.txDescKey desc.toNat 0
          txNumFreeDesc := s.txNumFreeDesc + 1 }
        let (es', s) := txLoop rs s
        (done :: es ++ es', s)
      else ([], s)

/-- `rltk8139_start`: all keys are forgotten, whether or not their packets were completed. -/
def start [Zero Key] (s : Rltk8139 Key) : List (Event Key) × Rltk8139 Key :=
  ([.started (s.inFlight N)],
    { s with
      txDescKey := fun i => if i < 2 ^ N.exp then 0 else s.txDescKey i
      txFreeDesc := 0
      txNumFreeDesc := N.val })

/-- `rltk8139_reset`; `rltk8139_stop` does not touch the fields, so it is `rltk8139_start`. -/
def reset [Zero Key] (s : Rltk8139 Key) : List (Event Key) × Rltk8139 Key := start N s

/-- The bits of the interrupt status that `rltk8139_deliver` tests, as the register has them. -/
structure IntStatus where
  serr : Bool
  ter : Bool
  tok : Bool
  rok : Bool
  rxovw : Bool
  fovw : Bool
  deriving DecidableEq, Repr

/-- `rltk8139_deliver`; `recvSends` are the packets that the callbacks for received frames send. -/
def deliver [Zero Key] (s : Rltk8139 Key) (status : IntStatus) (reads : List (TxRead Key))
    (recvSends : List Key) : List (Event Key) × Rltk8139 Key :=
  if status.serr then reset N s
  else
    let (es, s) := if status.ter ∨ status.tok then txLoop N reads s else ([], s)
    let (es', s) := if status.rok then sends N recvSends s else ([], s)
    let (es'', s) := if status.rxovw ∨ status.fovw then reset N s else ([], s)
    (es ++ es' ++ es'', s)

/-! ### Runs -/

/-- A call of the driver, by the network stack or for an interrupt. -/
inductive Call (Key : Type)
  | send (key : Key)
  | deliver (status : IntStatus) (reads : List (TxRead Key)) (recvSends : List Key)
  | reset
  deriving DecidableEq, Repr

/-- A call: the events, and the driver afterwards; what the chip's registers read is part of the
    call. -/
def call [Zero Key] (s : Rltk8139 Key) : Call Key → Option (List (Event Key) × Rltk8139 Key)
  | .send key => some (send N s key)
  | .deliver status reads recvSends => some (deliver N s status reads recvSends)
  | .reset => some (reset N s)

/-- The driver when the chip was started for the first time; the initial threshold is 3. -/
def started (Key : Type) [Zero Key] : Rltk8139 Key := ⟨fun _ => 0, 0, N.val, 3⟩

/-- The transmitter of the driver: it is started, and from then on any call may come; each shows
    what happened in it. -/
def rltkSystem (Key : Type) [Zero Key] : LTS (Rltk8139 Key) (Call Key × List (Event Key)) :=
  .ofFun (started N Key) (call N)

/-- The descriptor and key of a packet that was taken. -/
def Event.accepted : Event Key → List (Nat × Key)
  | .sent desc key => [(desc, key)]
  | _ => []

/-- The descriptor and key of a packet that was completed, with whatever status. -/
def Event.completed : Event Key → List (Nat × Key)
  | .txDone desc key _ => [(desc, key)]
  | _ => []

/-- The descriptors that a completion, or a restart of the chip, takes out of flight. -/
def Event.retired : Event Key → List (Nat × Key)
  | .sent _ _ => []
  | .txDone desc key _ => [(desc, key)]
  | .started inFlight => inFlight

variable {N} {s s' : Rltk8139 Key} {q : RingQueue (2 ^ N.exp) Key} {es es' : List (Event Key)}

/-! ### The fields as a queue -/

/-- The value of `NUM_TX_DESC` as a number: a power of two. -/
@[simp] theorem NumTxDesc.toNat_val (N : NumTxDesc) : N.val.toNat = 2 ^ N.exp := by
  unfold NumTxDesc.val
  rw [BitVec.toNat_ofNat]
  exact Nat.mod_eq_of_lt (Nat.pow_lt_pow_right (by decide) N.lt)

/-- There is at least one descriptor, so counting modulo their number makes sense. -/
theorem NumTxDesc.pos (N : NumTxDesc) : 0 < 2 ^ N.exp := Nat.two_pow_pos N.exp

/-- The descriptors can be counted in 32 bits: the number of free ones does not wrap. -/
theorem NumTxDesc.lt_size (N : NumTxDesc) : 2 ^ N.exp < 2 ^ 32 :=
  Nat.pow_lt_pow_right (by decide) N.lt

/-- Counting modulo `NUM_TX_DESC`, as the driver does it with a mask. -/
theorem NumTxDesc.toNat_mask (N : NumTxDesc) (b : BitVec 32) :
    (b &&& (N.val - 1)).toNat = b.toNat % 2 ^ N.exp := by
  have hpos := N.pos
  have hone : (N.val - 1).toNat = 2 ^ N.exp - 1 := by
    rw [BitVec.toNat_sub_of_le (by rw [BitVec.le_def, N.toNat_val]; exact hpos), N.toNat_val]
    rfl
  rw [BitVec.toNat_and, hone, Nat.and_two_pow_sub_one_eq_mod]

/-- The fields of the driver are the queue `q`. -/
structure Rltk8139.Holds (s : Rltk8139 Key) (q : RingQueue (2 ^ N.exp) Key) : Prop where
  slot : s.txDescKey = q.slot
  next : s.txFreeDesc.toNat = q.next
  free : s.txNumFreeDesc.toNat = q.free

/-- The keys in flight are the entries of the queue. -/
theorem Rltk8139.Holds.inFlight (h : s.Holds q) : s.inFlight N = q.entries := by
  unfold Rltk8139.inFlight RingQueue.entries
  rw [h.slot, h.next, h.free]

/-- The descriptor that `rltk8139_deliver` looks at is the oldest one in flight. -/
theorem Rltk8139.Holds.oldest (h : s.Holds q) :
    ((s.txFreeDesc - (N.val - s.txNumFreeDesc)) &&& (N.val - 1)).toNat = q.first := by
  have hfree := q.free_le
  have hlt := N.lt_size
  have hback : (N.val - s.txNumFreeDesc).toNat = 2 ^ N.exp - q.free := by
    rw [BitVec.toNat_sub_of_le (by rw [BitVec.le_def, h.free, N.toNat_val]; exact hfree),
      N.toNat_val, h.free]
  -- `2 ^ 32` is a multiple of the number of descriptors
  obtain ⟨m, hm⟩ : 2 ^ N.exp ∣ 2 ^ 32 := Nat.pow_dvd_pow 2 (Nat.le_of_lt N.lt)
  have hmpos : 0 < m := by
    rcases Nat.eq_zero_or_pos m with hzero | hpos
    · rw [hzero, Nat.mul_zero] at hm
      cases hm
    · exact hpos
  rw [N.toNat_mask, BitVec.toNat_sub, hback, h.next, RingQueue.first,
    Nat.mod_mod_of_dvd _ ⟨m, hm⟩, hm]
  have hsum : 2 ^ N.exp * m - (2 ^ N.exp - q.free) + q.next
      = q.next + q.free + 2 ^ N.exp * (m - 1) := by
    have hsplit : 2 ^ N.exp * m = 2 ^ N.exp * (m - 1) + 2 ^ N.exp := by
      rw [← Nat.mul_succ]
      congr 1
      omega
    omega
  rw [hsum, Nat.add_mul_mod_self_left]

/-! ### What the functions do to the queue -/

/-- The accepted keys of a list of events, each with its descriptor, in the order of the sends. -/
def acceptedOf (es : List (Event Key)) : List (Nat × Key) := es.flatMap Event.accepted

/-- The completed keys of a list of events, each with its descriptor, in the order of the `tx_done`
    calls. -/
def completedOf (es : List (Event Key)) : List (Nat × Key) := es.flatMap Event.completed

/-- The keys of a list of events that are not in flight any more. -/
def retiredOf (es : List (Event Key)) : List (Nat × Key) := es.flatMap Event.retired

/-- The keys accepted in two lists of events, the first ones in front. -/
@[simp] theorem acceptedOf_append (es es' : List (Event Key)) :
    acceptedOf (es ++ es') = acceptedOf es ++ acceptedOf es' := List.flatMap_append

/-- The keys retired in two lists of events, the first ones in front. -/
@[simp] theorem retiredOf_append (es es' : List (Event Key)) :
    retiredOf (es ++ es') = retiredOf es ++ retiredOf es' := List.flatMap_append

/-- **What a function does.**  With the events `es`, it leaves a queue in which the entries before
    and the accepted keys are, without those that were retired from the front. -/
structure Moves (q : RingQueue (2 ^ N.exp) Key) (es : List (Event Key)) (s' : Rltk8139 Key) :
    Prop where
  exists_queue : ∃ q' : RingQueue (2 ^ N.exp) Key, s'.Holds q' ∧
    q.entries ++ acceptedOf es = retiredOf es ++ q'.entries

/-- Without events nothing moves: the queue of the descriptors in use is still held. -/
theorem Moves.of_none (h : s.Holds q) : Moves q [] s :=
  ⟨q, h, List.append_nil _⟩

/-- One function after the other, each from the queue that the one before has left. -/
theorem Moves.trans (h : Moves q es s)
    (h' : ∀ q' : RingQueue (2 ^ N.exp) Key, s.Holds q' → Moves q' es' s') :
    Moves q (es ++ es') s' := by
  obtain ⟨q₁, hq₁, hkeys₁⟩ := h.exists_queue
  obtain ⟨q₂, hq₂, hkeys₂⟩ := (h' q₁ hq₁).exists_queue
  refine ⟨q₂, hq₂, ?_⟩
  rw [acceptedOf_append, retiredOf_append, ← List.append_assoc, hkeys₁, List.append_assoc,
    hkeys₂, List.append_assoc]

/-- `rltk8139_send` fills the next place, if there is one, and its key is then the newest in
    flight. -/
theorem send_holds (h : s.Holds q) (key : Key) :
    retiredOf (send N s key).1 = [] ∧
      ∃ q' : RingQueue (2 ^ N.exp) Key, (send N s key).2.Holds q' ∧
        q.entries ++ acceptedOf (send N s key).1 = q'.entries := by
  unfold send
  by_cases hzero : s.txNumFreeDesc = 0
  · rw [if_pos hzero]
    exact ⟨rfl, q, h, List.append_nil _⟩
  · rw [if_neg hzero]
    -- a free descriptor in the driver is one in the queue
    have hfree : q.free ≠ 0 := by
      intro hnone
      apply hzero
      apply BitVec.eq_of_toNat_eq
      rw [h.free, hnone]
      rfl
    have hle := q.free_le
    have hlt := N.lt_size
    have hnext := q.next_lt
    refine ⟨rfl, q.push key hfree, ⟨?_, ?_, ?_⟩, ?_⟩
    · show Function.update s.txDescKey s.txFreeDesc.toNat key = Function.update q.slot q.next key
      rw [h.slot, h.next]
    -- the mask is the remainder, since the number of descriptors is a power of two
    · show ((s.txFreeDesc + 1) &&& (N.val - 1)).toNat = (q.next + 1) % 2 ^ N.exp
      rw [N.toNat_mask, BitVec.toNat_add, h.next, Nat.mod_eq_of_lt (b := 2 ^ 32)]
      · rfl
      · show q.next + 1 < 2 ^ 32
        omega
    · show (s.txNumFreeDesc - 1).toNat = q.free - 1
      rw [BitVec.toNat_sub_of_le, h.free]
      · rfl
      · rw [BitVec.le_def, h.free]
        exact Nat.one_le_iff_ne_zero.mpr hfree
    · rw [RingQueue.entries_push, ← h.next]
      rfl

/-- A send, and the ones behind it, which start from the state it leaves. -/
theorem sends_cons (key : Key) (keys : List Key) (s : Rltk8139 Key) :
    sends N (key :: keys) s = ((send N s key).1 ++ (sends N keys (send N s key).2).1,
      (sends N keys (send N s key).2).2) := rfl

/-- **The spec of the sends**, which the stack makes in the callback: the keys that are accepted
    join the queue, and none is retired. -/
theorem sends_holds (h : s.Holds q) (keys : List Key) :
    retiredOf (sends N keys s).1 = [] ∧
      ∃ q' : RingQueue (2 ^ N.exp) Key, (sends N keys s).2.Holds q' ∧
        q.entries ++ acceptedOf (sends N keys s).1 = q'.entries := by
  induction keys generalizing s q with
  | nil => exact ⟨rfl, q, h, List.append_nil _⟩
  | cons key keys ih =>
    obtain ⟨hnone, q₁, hq₁, hkeys₁⟩ := send_holds h key
    obtain ⟨hnone', q₂, hq₂, hkeys₂⟩ := ih hq₁
    rw [sends_cons]
    refine ⟨?_, q₂, hq₂, ?_⟩
    · rw [retiredOf_append, hnone, hnone', List.append_nil]
    · rw [acceptedOf_append, ← List.append_assoc, hkeys₁, hkeys₂]

/-- A list of sends is a move of the queue, by induction on the list. -/
theorem sends_moves (h : s.Holds q) (keys : List Key) :
    Moves q (sends N keys s).1 (sends N keys s).2 := by
  obtain ⟨hnone, q', hq', hkeys⟩ := sends_holds h keys
  exact ⟨q', hq', by rw [hnone, hkeys, List.nil_append]⟩

/-- The end of an iteration of the loop: the oldest place becomes free. -/
theorem free_oldest [Zero Key] (h : s.Holds q) (hlt : q.free < 2 ^ N.exp) :
    Rltk8139.Holds { s with
      txDescKey := Function.update s.txDescKey q.first 0
      txNumFreeDesc := s.txNumFreeDesc + 1 } (q.pop 0 hlt) := by
  have hsize := N.lt_size
  refine ⟨?_, h.next, ?_⟩
  · show Function.update s.txDescKey q.first 0 = Function.update q.slot q.first 0
    rw [h.slot]
  · show (s.txNumFreeDesc + 1).toNat = q.free + 1
    rw [BitVec.toNat_add, h.free]
    exact Nat.mod_eq_of_lt (by show q.free + 1 < 2 ^ 32; omega)

/-- **One iteration** of the loop that finds a descriptor done: the callback gets the oldest key,
    and whatever it sends comes behind the others. -/
theorem done_moves [Zero Key] (h : s.Holds q) (hlt : q.free < 2 ^ N.exp) (keys : List Key)
    (status : Int) :
    Moves q (Event.txDone q.first (s.txDescKey q.first) status :: (sends N keys s).1)
      { (sends N keys s).2 with
        txDescKey := Function.update (sends N keys s).2.txDescKey q.first 0
        txNumFreeDesc := (sends N keys s).2.txNumFreeDesc + 1 } := by
  obtain ⟨hnone, q₁, hq₁, hkeys⟩ := sends_holds h keys
  -- the entry of the descriptor is still the first one
  have hold := q.entries_pop (s.txDescKey q.first) hlt
  have hlt₁ : q₁.free < 2 ^ N.exp := by
    have hlen := congrArg List.length hkeys
    rw [hold, List.cons_append, List.length_cons, RingQueue.length_entries] at hlen
    omega
  have hnew := q₁.entries_pop 0 hlt₁
  rw [hold, List.cons_append, hnew] at hkeys
  obtain ⟨hhead, htail⟩ := List.cons.inj hkeys
  obtain ⟨hfirst, hslot⟩ := Prod.mk.inj hhead
  rw [hfirst]
  refine ⟨q₁.pop 0 hlt₁, free_oldest hq₁ hlt₁, ?_⟩
  have hretired : retiredOf (Event.txDone q₁.first (s.txDescKey q₁.first) status
      :: (sends N keys s).1) = [(q₁.first, s.txDescKey q₁.first)] := by
    show [_] ++ retiredOf (sends N keys s).1 = _
    rw [hnone]
    rfl
  rw [hretired, hold]
  show (_ :: _) ++ acceptedOf (sends N keys s).1 = _
  rw [List.cons_append, htail, h.slot, hfirst]
  rfl

/-- **The loop.**  Each turn retires the oldest key and lets its callback send more, by induction
    on what is read. -/
theorem txLoop_moves [Zero Key] (h : s.Holds q) (reads : List (TxRead Key)) :
    Moves q (txLoop N reads s).1 (txLoop N reads s).2 := by
  induction reads generalizing s q with
  | nil => exact .of_none h
  | cons r rs ih =>
    unfold txLoop
    by_cases hall : N.val ≤ s.txNumFreeDesc
    · rw [if_pos hall]
      exact .of_none h
    rw [if_neg hall]
    have hlt : q.free < 2 ^ N.exp := by
      rw [BitVec.le_def, N.toNat_val, h.free] at hall
      omega
    -- the threshold is not a part of the queue
    generalize hs₁ : (if r.tun ∧ s.txThreshold < 64 then
      { s with txThreshold := s.txThreshold + 1 } else s) = s₁
    have h₁ : s₁.Holds q := by
      rw [← hs₁]
      split
      · exact ⟨h.slot, h.next, h.free⟩
      · exact h
    have hdesc := h.oldest
    dsimp only
    by_cases hdone : r.tok ∨ r.tabt
    · rw [if_pos hdone, hdesc]
      exact (done_moves h₁ hlt r.sends _).trans fun q' hq' => ih hq'
    · rw [if_neg hdone]
      exact .of_none h₁

/-- `rltk8139_start` empties the queue, and its keys are dropped. -/
theorem start_moves [Zero Key] (h : s.Holds q) : Moves q (start N s).1 (start N s).2 := by
  refine ⟨.empty _ N.pos, ⟨rfl, rfl, N.toNat_val⟩, ?_⟩
  rw [RingQueue.entries_empty, List.append_nil]
  show q.entries ++ [] = [s.inFlight N].flatten
  rw [h.inFlight, List.append_nil, List.flatten_singleton]

/-- **Every call** is a move of the queue: keys come in at its end and are retired from its
    front. -/
theorem call_moves [Zero Key] (h : s.Holds q) {c : Call Key} (hcall : call N s c = some (es, s')) :
    Moves q es s' := by
  cases c with
  | send key =>
    obtain ⟨hnone, q', hq', hkeys⟩ := send_holds h key
    rw [show send N s key = (es, s') from Option.some.inj hcall] at hnone hq' hkeys
    exact ⟨q', hq', by rw [hnone, hkeys, List.nil_append]⟩
  | reset =>
    obtain ⟨rfl, rfl⟩ := Prod.mk.inj (Option.some.inj hcall)
    exact start_moves h
  | deliver status reads recvSends =>
    have hval := Option.some.inj hcall
    unfold deliver at hval
    split at hval
    · obtain ⟨rfl, rfl⟩ := Prod.mk.inj hval
      exact start_moves h
    -- the three parts of `deliver`, one behind the other
    rcases htx : (if status.ter ∨ status.tok then txLoop N reads s else ([], s)) with ⟨es₁, s₁⟩
    rw [htx] at hval
    rcases hrx : (if status.rok then sends N recvSends s₁ else ([], s₁)) with ⟨es₂, s₂⟩
    dsimp only at hval
    rw [hrx] at hval
    rcases hov : (if status.rxovw ∨ status.fovw then reset N s₂ else ([], s₂)) with ⟨es₃, s₃⟩
    dsimp only at hval
    rw [hov] at hval
    obtain ⟨rfl, rfl⟩ := Prod.mk.inj hval
    have htx' : Moves q es₁ s₁ := by
      split at htx
      · have hloop := txLoop_moves h reads
        rwa [htx] at hloop
      · obtain ⟨rfl, rfl⟩ := Prod.mk.inj htx
        exact .of_none h
    have hrx' : Moves q (es₁ ++ es₂) s₂ := by
      refine htx'.trans fun q₁ hq₁ => ?_
      split at hrx
      · have hsend := sends_moves hq₁ recvSends
        rwa [hrx] at hsend
      · obtain ⟨rfl, rfl⟩ := Prod.mk.inj hrx
        exact .of_none hq₁
    refine hrx'.trans fun q₂ hq₂ => ?_
    split at hov
    · have hreset := start_moves hq₂
      rwa [show start N s₂ = (es₃, s₃) from hov] at hreset
    · obtain ⟨rfl, rfl⟩ := Prod.mk.inj hov
      exact .of_none hq₂

/-! ### The keys of a run -/

/-- The events of a run, one call after the other. -/
def eventsOf (as : List (Call Key × List (Event Key))) : List (Event Key) := as.flatMap Prod.snd

/-- Every run leaves a queue, of which the accepted keys are the ones retired and the entries. -/
theorem run_moves [Zero Key] {as : List (Call Key × List (Event Key))}
    (h : (rltkSystem N Key).Run as s) :
    Moves (RingQueue.empty (fun _ => 0) N.pos) (eventsOf as) s := by
  refine LTS.Run.invariant_trace
    (I := fun as s => Moves (RingQueue.empty (fun _ => 0) N.pos) (eventsOf as) s) ?_ ?_ h
  · rintro s rfl
    exact .of_none ⟨rfl, rfl, N.toNat_val⟩
  · rintro as s ⟨c, es⟩ s' - hI hstep
    have hevents : eventsOf (as ++ [(c, es)]) = eventsOf as ++ es := by
      unfold eventsOf
      rw [List.flatMap_append, List.flatMap_singleton]
    rw [hevents]
    exact hI.trans fun q hq => call_moves hq hstep

/-- Was the chip restarted only when no descriptor was in flight? Otherwise keys are dropped. -/
def QuietStarts (es : List (Event Key)) : Prop :=
  ∀ inFlight, Event.started inFlight ∈ es → inFlight = []

/-- The start of the interface is quiet when nothing is in flight then. -/
theorem quietStarts_cons {e : Event Key} :
    QuietStarts (e :: es) ↔ (∀ inFlight, e = .started inFlight → inFlight = []) ∧
      QuietStarts es := by
  constructor
  · intro h
    exact ⟨fun l hl => h l (hl ▸ List.mem_cons_self), fun l hl => h l (List.mem_cons_of_mem _ hl)⟩
  · rintro ⟨hhead, htail⟩ l hl
    rcases List.mem_cons.mp hl with rfl | hmem
    · exact hhead l rfl
    · exact htail l hmem

/-- Keys that are not in flight any more were completed, unless a restart dropped them. -/
theorem retired_completed (es : List (Event Key)) :
    (completedOf es).length ≤ (retiredOf es).length ∧
      (QuietStarts es → retiredOf es = completedOf es) ∧
      ((retiredOf es).length = (completedOf es).length → QuietStarts es) := by
  induction es with
  | nil => exact ⟨Nat.le_refl _, fun _ => rfl, fun _ _ hl => nomatch hl⟩
  | cons e es ih =>
    obtain ⟨hle, heq, hquiet⟩ := ih
    have hretired : retiredOf (e :: es) = e.retired ++ retiredOf es := rfl
    have hcompleted : completedOf (e :: es) = e.completed ++ completedOf es := rfl
    rw [hretired, hcompleted, quietStarts_cons, List.length_append, List.length_append]
    cases e with
    | sent desc key =>
      refine ⟨by simpa [Event.retired, Event.completed] using hle, fun hq => ?_, fun hlen => ?_⟩
      · rw [heq hq.2]
        rfl
      · exact ⟨nofun, hquiet (by simpa [Event.retired, Event.completed] using hlen)⟩
    | txDone desc key status =>
      refine ⟨by simpa [Event.retired, Event.completed] using hle, fun hq => ?_, fun hlen => ?_⟩
      · rw [heq hq.2]
        rfl
      · exact ⟨nofun, hquiet (by simpa [Event.retired, Event.completed] using hlen)⟩
    | started inFlight =>
      -- a start retires what is in flight, without completing it
      have hnone : (Event.started inFlight).completed = ([] : List (Nat × Key)) := rfl
      have hall : (Event.started inFlight).retired = inFlight := rfl
      rw [hnone, hall, List.length_nil]
      refine ⟨by omega, fun hq => ?_, fun hlen => ⟨?_, hquiet (by omega)⟩⟩
      · rw [hq.1 inFlight rfl, heq hq.2]
      · intro l hl
        obtain rfl := Event.started.inj hl
        exact List.length_eq_zero_iff.mp (by omega)

/-- **The keys of the packets.**  After every run, the number of free descriptors is at most
    `NUM_TX_DESC`, and the accepted descriptors with their keys are the ones completed or dropped
    by a restart of the chip and then the ones in flight, in this order; so the accepted keys are
    the completed keys and then those in flight exactly when the chip was never restarted with a
    descriptor in flight. -/
theorem tx_keys [Zero Key] {as : List (Call Key × List (Event Key))}
    (h : (rltkSystem N Key).Run as s) :
    s.txNumFreeDesc.toNat ≤ 2 ^ N.exp ∧
      acceptedOf (eventsOf as) = retiredOf (eventsOf as) ++ s.inFlight N ∧
      ((acceptedOf (eventsOf as)).map Prod.snd
        = (completedOf (eventsOf as)).map Prod.snd ++ (s.inFlight N).map Prod.snd ↔
        QuietStarts (eventsOf as)) := by
  obtain ⟨q, hq, hkeys⟩ := (run_moves h).exists_queue
  rw [RingQueue.entries_empty, List.nil_append] at hkeys
  obtain ⟨-, hsame, hlength⟩ := retired_completed (eventsOf as)
  rw [hq.inFlight]
  refine ⟨?_, hkeys, ?_⟩
  · rw [hq.free]
    exact q.free_le
  rw [hkeys, List.map_append]
  constructor
  · intro hconserved
    apply hlength
    have hlen := congrArg List.length hconserved
    simp only [List.length_append, List.length_map] at hlen
    omega
  · intro hquiet
    rw [hsame hquiet]

/-! ### Runs of a driver with four descriptors -/

/-- Four descriptors, of which the run below uses three. -/
def four : NumTxDesc := ⟨2, by decide⟩

/-- The interrupt status of a completed transmission: `TOK` and nothing else. -/
def txOk : IntStatus := ⟨false, false, true, false, false, false⟩

/-- The interrupt status of a receive buffer overflow, which makes the driver restart the card. -/
def rxOverflow : IntStatus := ⟨false, false, false, false, true, false⟩

/-- The first packet is done, and the callback sends a third one, while the second is in flight. -/
def resendCalls : List (Call Nat) :=
  [.send 11, .send 12, .deliver txOk [⟨false, true, false, [13]⟩] []]

/-- What happens in these calls: the third packet is sent from within the first `tx_done`. -/
def resendEvents : List (List (Event Nat)) :=
  [[.sent 0 11], [.sent 1 12], [.txDone 0 11 0, .sent 2 13]]

/-- A key is sent again from the callback of another one. -/
theorem tx_keys_resend : ∃ s, (rltkSystem four Nat).Run (resendCalls.zip resendEvents) s ∧
    s.txNumFreeDesc.toNat ≤ 2 ^ four.exp ∧
    [11, 12, 13] = [11] ++ (s.inFlight four).map Prod.snd := by
  obtain ⟨s, hex⟩ : ∃ s, LTS.exec (call four) resendCalls (started four Nat)
      = some (resendEvents, s) := ⟨_, rfl⟩
  have hrun := LTS.Run.exec (.init rfl) hex
  rw [List.nil_append] at hrun
  have hkeys := tx_keys hrun
  refine ⟨s, hrun, hkeys.1, hkeys.2.2.mpr fun l hl => ?_⟩
  have hnone : ∀ e ∈ eventsOf (resendCalls.zip resendEvents), e ≠ .started l := by
    intro e he
    revert he e
    simp [eventsOf, resendCalls, resendEvents]
  exact absurd rfl (hnone _ hl)

/-- A receive buffer overflow while a packet is in flight: the chip is restarted, and the key of
    the packet is never completed. -/
theorem key_dropped : ∃ s as, (rltkSystem four Nat).Run as s ∧
    (acceptedOf (eventsOf as)).map Prod.snd = [11] ∧
    (completedOf (eventsOf as)).map Prod.snd ++ (s.inFlight four).map Prod.snd = [] := by
  obtain ⟨s, hex, hnone⟩ : ∃ s, LTS.exec (call four) [.send 11, .deliver rxOverflow [] []]
      (started four Nat) = some ([[.sent 0 11], [.started [(0, 11)]]], s) ∧
      s.inFlight four = [] := ⟨_, rfl, rfl⟩
  refine ⟨s, _, LTS.Run.exec (.init rfl) hex, rfl, ?_⟩
  rw [hnone]
  rfl

end Ecos.Eth
