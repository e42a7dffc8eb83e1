import Ecos.Lib.Heap
import Ecos.Lib.FreeMap

namespace Ecos.Ethread

open Ecos.Lib

/-!
# Thread-specific data

`ethread_key_create`, `ethread_key_delete`, `ethread_setspecific`, `ethread_getspecific` and
the thread destructor `ethread_exit`, over the map of free keys, the table of per-thread
tables, and the word that the kernel keeps for every thread.

* `EthreadConfig`, `TsdState` — the configuration and the memory;
* `keyCreate`, `keyDelete`, `setspecific`, `getspecific` — the calls, each as a whole;
* `ExitPc`, `exitStart`, `exitNext` — `ethread_exit` in steps, because it runs the key
  destructors without the lock, and these may call the layer again;
* `stepTsd` — one step of one thread.  `none` is undefined behaviour, or a step the thread
  cannot make.
-/

abbrev Thread := Nat

/-- A `void *`; `NULL` is 0, and the layer never looks behind any other value. -/
abbrev Ptr := Nat

/-- The configuration, and the memory that surrounds the module's: what a read finds behind the end
    of `thread_key` is a parameter, so that a theorem says nothing about it. -/
structure EthreadConfig where
  /-- `ETHREAD_KEYS_MAX` -/
  keysMax : Nat
  /-- `ETHREAD_THREADS_MAX` -/
  threadsMax : Nat
  /-- `ETHREAD_DESTRUCTOR_ITERATIONS` -/
  iterations : Nat
  /-- `CYGNUM_KERNEL_THREADS_DATA_MAX` -/
  dataMax : Nat
  /-- The words behind the end of `thread_key`. -/
  beyond : Nat → BitVec 32
  /-- The contents of a table fresh from `malloc`. -/
  garbage : Nat → Ptr

/-- The local variables of `ethread_exit`, which live on across the calls of the key destructors. -/
structure ExitFrame where
  tableIndex : Nat
  threadData : Addr
  key : Nat
  destructorsCalled : Bool
  destructorIterations : Nat
  deriving DecidableEq, Repr

/-- Where a thread is in `ethread_exit`: between two of these points other threads run, and in a
    destructor the thread itself calls the layer again. -/
inductive ExitPc
  | outside
  /-- About to look at `key`, or past the last key. -/
  | scan (f : ExitFrame)
  /-- In the destructor of `key`. -/
  | inDestructor (f : ExitFrame)
  /-- About to free the table. -/
  | release (f : ExitFrame)
  deriving DecidableEq, Repr

/-- The memory of the module, the kernel's data about its threads, and an account of the
    tables that the code does not read. -/
structure TsdState where
  dataIndex : Nat
  threadKey : FreeMap 32
  keyDestructor : Nat → Addr
  threadTable : Nat → Addr
  /-- The per-thread tables. -/
  heap : Heap (Nat → Ptr)
  /-- The word the kernel keeps for a thread at `data_index`. -/
  threadData : Thread → Nat
  /-- How often `ethread_exit` is registered as a destructor of a thread and has not run. -/
  registered : Thread → Nat
  pc : Thread → ExitPc
  /-- For which thread `setspecific` allocated a table. -/
  owner : Addr → Thread
  /-- Tables allocated so far, each with the thread it was allocated for. -/
  allocated : List (Addr × Thread)
  /-- Tables freed so far, each with the thread that freed it. -/
  freed : List (Addr × Thread)
  /-- The slot of the table that a thread has freed, until it is given another table. -/
  released : Thread → Option Nat

inductive EthreadError
  | EAGAIN | EINVAL | ENOMEM
  deriving DecidableEq, Repr

/-- What a step returns to its caller; `none` where the code returns `void`. -/
inductive TsdRet
  /-- An error number, or 0. -/
  | int (err : Option EthreadError)
  /-- 0, with the new key. -/
  | key (k : Nat)
  | ptr (p : Ptr)
  | none
  deriving DecidableEq, Repr

/-- The result of a step: what it returns, and the tables it read, wrote or freed, each with
    the thread it was allocated for. -/
structure TsdOut where
  ret : TsdRet
  touched : List (Addr × Thread)
  deriving DecidableEq, Repr

variable (cfg : EthreadConfig)

namespace TsdState

/-- The static data before any call: `thread_key` is zero, so that every key looks allocated until
    the first `ethread_key_create` sets the bits. -/
def init : TsdState where
  dataIndex := cfg.dataMax + 1
  threadKey := List.replicate (cfg.keysMax / 32) 0
  keyDestructor _ := 0
  threadTable _ := 0
  heap := .empty
  threadData _ := 0
  registered _ := 0
  pc _ := .outside
  owner _ := 0
  allocated := []
  freed := []
  released _ := none

/-- `thread_key[i]`; a read past its end finds whatever the configuration says lies there. -/
def keyWord (s : TsdState) (i : Nat) : BitVec 32 := s.threadKey.getD i (cfg.beyond i)

/-- `thread_key[key/KEY_MAP_TYPE_SIZE] & 1<<(key%KEY_MAP_TYPE_SIZE)`: the test that
    `ethread_setspecific`, `ethread_getspecific` and `ethread_exit` make without the lock. -/
def keyFree (s : TsdState) (key : Nat) : Bool := bitSet (s.keyWord cfg (key / 32)) (key % 32)

/-- `cyg_thread_get_data(data_index)`; none before `data_index` has been assigned, where the
    kernel's array would be left. -/
def getData (s : TsdState) (t : Thread) : Option Nat :=
  if s.dataIndex ≤ cfg.dataMax then some (s.threadData t) else none

/-- `table[key]`; none outside the table or when the table is not a live block. -/
def loadEntry (s : TsdState) (table : Addr) (key : Nat) : Option Ptr :=
  if key < cfg.keysMax then (s.heap.load table).map fun d => d key else none

/-- `table[key] = p`; none outside the table or when the table is not a live block. -/
def storeEntry (s : TsdState) (table : Addr) (key : Nat) (p : Ptr) : Option TsdState :=
  if key < cfg.keysMax then do
    let d ← s.heap.load table
    return { s with heap := ← s.heap.store table (Function.update d key p) }
  else none

/-- A table, with the thread it was allocated for, as the steps report the tables that they
    touch. -/
def owned (s : TsdState) (table : Addr) : Addr × Thread := (table, s.owner table)

/-- The slots `1 .. ETHREAD_THREADS_MAX - 1`, in the order in which they are searched; slot 0 is
    never taken. -/
def slots : List Nat := List.range' 1 (cfg.threadsMax - 1)

/-- Plant a `NULL` in all the valid thread data slots for the key, in case a key is reused that was
    used before. -/
def plant (s : TsdState) (k : Nat) : Option (Heap (Nat → Ptr)) :=
  (slots cfg).foldlM (fun h i =>
    if s.threadTable i = 0 then some h
    else do
      let d ← h.load (s.threadTable i)
      h.store (s.threadTable i) (Function.update d k 0)) s.heap

end TsdState

/-! ### The calls -/

/-- First time initialization.  `newIndex` is the answer of `cyg_thread_new_data_index`, which
    asserts that there is one. -/
def initKeys (s : TsdState) (newIndex : Nat) : Option TsdState :=
  if cfg.dataMax < s.dataIndex then
    if newIndex ≤ cfg.dataMax then
      some { s with dataIndex := newIndex, threadKey := FreeMap.full 32 (cfg.keysMax / 32) }
    else none
  else some s

/-- `ethread_key_create`: the free key of the lowest number is taken, its destructor installed and
    its old values overwritten in every table; `EAGAIN` when no bit is set. -/
def keyCreate (s : TsdState) (destructor : Addr) (newIndex : Nat) :
    Option (TsdOut × TsdState) := do
  let s ← initKeys cfg s newIndex
  match s.threadKey.alloc with
  | none => return (⟨.int (some .EAGAIN), []⟩, s)
  | some (k, m) =>
    let s := { s with
      threadKey := m
      keyDestructor := Function.update s.keyDestructor k destructor }
    let h ← s.plant cfg k
    return (⟨.key k, ((TsdState.slots cfg).map s.threadTable).filter (· ≠ 0) |>.map s.owned⟩,
      { s with heap := h })

/-- `ethread_key_delete`: the bit is set, and neither the destructor nor the values stored under
    the key are touched. -/
def keyDelete (s : TsdState) (key : Nat) : Option (TsdOut × TsdState) :=
  if key / 32 < s.threadKey.length then
    some (⟨.int none, []⟩, { s with threadKey := s.threadKey.release key })
  else none

/-- The part of `ethread_setspecific` that gives the thread a table.  `added` is the answer of
    `cyg_thread_add_destructor`, `answer` that of `malloc`. -/
def newTable (s : TsdState) (t : Thread) (added : Bool) (answer : Addr) :
    Option (Except EthreadError Addr × TsdState) :=
  match (TsdState.slots cfg).find? fun i => s.threadTable i = 0 with
  | none => some (.error .EINVAL, s)
  | some tableIndex =>
    if !added then some (.error .EINVAL, s)
    else
      let s := { s with registered := Function.update s.registered t (s.registered t + 1) }
      match s.heap.malloc answer cfg.garbage with
      | none => some (.error .ENOMEM, s)
      | some h => do
        -- clear out all entries
        let h ← h.store answer fun _ => 0
        return (.ok answer, { s with
          heap := h
          threadTable := Function.update s.threadTable tableIndex answer
          threadData := Function.update s.threadData t tableIndex
          owner := Function.update s.owner answer t
          allocated := s.allocated ++ [(answer, t)]
          released := Function.update s.released t none })

/-- The part of `ethread_setspecific` that gets the thread local data, and gives the thread a table
    when it finds `NULL`. -/
def localTable (s : TsdState) (t : Thread) (added : Bool) (answer : Addr) :
    Option (Except EthreadError Addr × TsdState) := do
  let tableIndex ← s.getData cfg t
  let threadData := s.threadTable tableIndex
  if threadData = 0 then newTable cfg s t added answer else return (.ok threadData, s)

/-- `ethread_setspecific`: whether the kernel has room for the destructor and what `malloc` answers
    are arguments, so that a theorem holds for all of them. -/
def setspecific (s : TsdState) (t : Thread) (key : Nat) (pointer : Ptr) (added : Bool)
    (answer : Addr) : Option (TsdOut × TsdState) := do
  if s.keyFree cfg key then
    return (⟨.int (some .EINVAL), []⟩, s)
  match ← localTable cfg s t added answer with
  | (.error err, s) => return (⟨.int (some err), []⟩, s)
  | (.ok table, s) =>
    let s ← s.storeEntry cfg table key pointer
    return (⟨.int none, [s.owned table]⟩, s)

/-- `ethread_getspecific`: `NULL` for a key that is free and for a thread without a table. -/
def getspecific (s : TsdState) (t : Thread) (key : Nat) : Option (TsdOut × TsdState) := do
  if s.keyFree cfg key then
    return (⟨.ptr 0, []⟩, s)
  let tableIndex ← s.getData cfg t
  let threadData := s.threadTable tableIndex
  if threadData = 0 then
    return (⟨.ptr 0, []⟩, s)
  else
    let val ← s.loadEntry cfg threadData key
    return (⟨.ptr val, [s.owned threadData]⟩, s)

/-! ### `ethread_exit` -/

/-- Thread `t` goes on at `pc`. -/
def TsdState.goto (s : TsdState) (t : Thread) (pc : ExitPc) : TsdState :=
  { s with pc := Function.update s.pc t pc }

/-- The kernel calls `ethread_exit`, which looks for the table of the thread; without one it
    returns at once. -/
def exitStart (s : TsdState) (t : Thread) : Option (TsdOut × TsdState) := do
  if s.registered t = 0 then none
  else
    let s := { s with registered := Function.update s.registered t (s.registered t - 1) }
    let tableIndex ← s.getData cfg t
    let threadData := s.threadTable tableIndex
    if threadData ≠ 0 then
      return (⟨.none, []⟩, s.goto t (.scan ⟨tableIndex, threadData, 0, false, 0⟩))
    else return (⟨.none, []⟩, s)

/-- Look at the next key; past the last one, start another iteration or go on to free the
    table. -/
def scanKey (s : TsdState) (t : Thread) (f : ExitFrame) : Option (TsdOut × TsdState) :=
  let skip := { f with key := f.key + 1 }
  if f.key < cfg.keysMax then
    if s.keyFree cfg f.key then some (⟨.none, []⟩, s.goto t (.scan skip))
    else if s.keyDestructor f.key = 0 then some (⟨.none, []⟩, s.goto t (.scan skip))
    else do
      let value ← s.loadEntry cfg f.threadData f.key
      if value = 0 then return (⟨.none, [s.owned f.threadData]⟩, s.goto t (.scan skip))
      else
        let s ← s.storeEntry cfg f.threadData f.key 0
        return (⟨.none, [s.owned f.threadData]⟩, s.goto t (.inDestructor f))
  else
    let iterations := f.destructorIterations + 1
    if f.destructorsCalled ∧ iterations ≤ cfg.iterations then
      some (⟨.none, []⟩, s.goto t (.scan ⟨f.tableIndex, f.threadData, 0, false, iterations⟩))
    else some (⟨.none, []⟩, s.goto t (.release f))

/-- `free(thread_table[table_index]); thread_table[table_index] = NULL;` and return. The slot is
    read again here, not the pointer with which the destructors ran. -/
def releaseTable (s : TsdState) (t : Thread) (f : ExitFrame) : Option (TsdOut × TsdState) := do
  let table := s.threadTable f.tableIndex
  let s := s.goto t .outside
  -- `free(NULL)` does nothing
  if table = 0 then return (⟨.none, []⟩, s)
  else
    let h ← s.heap.free table
    return (⟨.none, [s.owned table]⟩, { s with
      heap := h
      threadTable := Function.update s.threadTable f.tableIndex 0
      freed := s.freed ++ [(table, t)]
      released := Function.update s.released t (some f.tableIndex) })

/-- The next step of a thread in `ethread_exit`: one key of the scan, or the freeing of the
    table. -/
def exitNext (s : TsdState) (t : Thread) : Option (TsdOut × TsdState) :=
  match s.pc t with
  | .scan f => scanKey cfg s t f
  | .release f => releaseTable s t f
  | _ => none

/-- A key destructor returns, and the scan goes on behind its key. -/
def destructorReturn (s : TsdState) (t : Thread) : Option (TsdOut × TsdState) :=
  match s.pc t with
  | .inDestructor f =>
    some (⟨.none, []⟩,
      s.goto t (.scan { f with key := f.key + 1, destructorsCalled := true }))
  | _ => none

/-! ### One step -/

/-- What a thread can do: a call of the layer, or one step of its `ethread_exit`. -/
inductive TsdEvent
  | keyCreate (destructor : Addr) (newIndex : Nat)
  | keyDelete (key : Nat)
  | setspecific (key : Nat) (pointer : Ptr) (added : Bool) (answer : Addr)
  | getspecific (key : Nat)
  | exitStart
  | exitNext
  | destructorReturn
  deriving DecidableEq, Repr

/-- A thread calls the layer from its own code or from a key destructor, not between two steps of
    the scan. -/
def ExitPc.mayCall : ExitPc → Bool
  | .outside | .inDestructor _ => true
  | _ => false

/-- One step of one thread, any thread at any time: the interleavings are the lists of these
    steps. -/
def stepTsd (s : TsdState) (a : Thread × TsdEvent) : Option (TsdOut × TsdState) :=
  match a.2 with
  | .keyCreate destructor newIndex =>
    if (s.pc a.1).mayCall then keyCreate cfg s destructor newIndex else none
  | .keyDelete key => if (s.pc a.1).mayCall then keyDelete s key else none
  | .setspecific key pointer added answer =>
    if (s.pc a.1).mayCall then setspecific cfg s a.1 key pointer added answer else none
  | .getspecific key => if (s.pc a.1).mayCall then getspecific cfg s a.1 key else none
  | .exitStart => if s.pc a.1 = .outside then exitStart cfg s a.1 else none
  | .exitNext => exitNext cfg s a.1
  | .destructorReturn => destructorReturn s a.1

end Ecos.Ethread
