import Ecos.Ethread.Ownership
import Ecos.Lib.ArrayProgram

namespace Ecos.Ethread

open Ecos.Lib

/-!
# The words of the key map

The calls and the key loop of `ethread_exit` once more, as programs on the array `thread_key`.
A program is given the state without the map (`withKeys []`), so all that it knows of the map is
what it has read.

* `clearKeys`, `findKey`, `keyBit` — the pieces of the code that index `thread_key`;
* `stepOn` — one step of one thread, made of them;
* `stepOn_run` — on the array of the state, that program is the step `stepTsd`;
* `keyIndices` — so these are the indices into `thread_key` that the step uses.
-/

/-- A piece of code that uses `thread_key`, through reads and writes of single words only. -/
abbrev KeyProgram (α : Type) := ArrayProgram (BitVec 32) α

/-- The state with another map of free keys; the programs below carry the map apart from the
    state. -/
def TsdState.withKeys (s : TsdState) (m : FreeMap 32) : TsdState := { s with threadKey := m }

open ArrayProgram

/-! ### The code that indexes the map -/

/-- Initialize the per-thread data key map: `thread_key[i] = ~0` for each word of the loop. -/
def clearKeys : List Nat → KeyProgram Unit
  | [] => return
  | i :: is => do
    write i (BitVec.allOnes 32)
    clearKeys is

/-- Find a key to allocate, in the first word that is not zero: get the index of its least
    significant set bit, clear it, and add the index of the word. -/
def findKey : List Nat → KeyProgram (Option Nat)
  | [] => return none
  | i :: is => do
    if (← read i) ≠ 0 then
      let k := lsBit (← read i)
      write i ((← read i) &&& ~~~(1#32 <<< k))
      return some (k + i * 32)
    else findKey is

/-- `thread_key[key/KEY_MAP_TYPE_SIZE] & 1<<(key%KEY_MAP_TYPE_SIZE)`: one read of the array. -/
def keyBit (key : Nat) : KeyProgram Bool := do
  return bitSet (← read (key / 32)) (key % 32)

variable (cfg : EthreadConfig)

/-- `ethread_key_create`, past the first time initialization: the search, and what is done with the
    key found. -/
def createOn (s : TsdState) (destructor : Addr) : KeyProgram (Option (TsdOut × TsdState)) := do
  match ← findKey (List.range (cfg.keysMax / 32)) with
  | none => return some (⟨.int (some .EAGAIN), []⟩, s)
  | some k =>
    let s := { s with keyDestructor := Function.update s.keyDestructor k destructor }
    return (s.plant cfg k).map fun h =>
      (⟨.key k, ((TsdState.slots cfg).map s.threadTable).filter (· ≠ 0) |>.map s.owned⟩,
        { s with heap := h })

/-- `ethread_key_create`, with the loop that initializes the map when no data index is assigned
    yet. -/
def keyCreateOn (s : TsdState) (destructor : Addr) (newIndex : Nat) :
    KeyProgram (Option (TsdOut × TsdState)) := do
  if cfg.dataMax < s.dataIndex then
    if newIndex ≤ cfg.dataMax then
      clearKeys (List.range (cfg.keysMax / 32))
      createOn cfg { s with dataIndex := newIndex } destructor
    else return none
  else createOn cfg s destructor

/-- `ethread_key_delete`: the word is read, the bit set and the word written back. -/
def keyDeleteOn (s : TsdState) (key : Nat) : KeyProgram (Option (TsdOut × TsdState)) := do
  write (key / 32) ((← read (key / 32)) ||| (1#32 <<< (key % 32)))
  return some (⟨.int none, []⟩, s)

/-- `ethread_setspecific`: the array is read once, and the rest of the call is as before. -/
def setspecificOn (s : TsdState) (t : Thread) (key : Nat) (pointer : Ptr) (added : Bool)
    (answer : Addr) : KeyProgram (Option (TsdOut × TsdState)) := do
  if ← keyBit key then return some (⟨.int (some .EINVAL), []⟩, s)
  else return (localTable cfg s t added answer).bind fun r =>
    match r with
    | (.error err, s) => some (⟨.int (some err), []⟩, s)
    | (.ok table, s) =>
      (s.storeEntry cfg table key pointer).map fun s => (⟨.int none, [s.owned table]⟩, s)

/-- `ethread_getspecific`: the array is read once, and the rest of the call is as before. -/
def getspecificOn (s : TsdState) (t : Thread) (key : Nat) :
    KeyProgram (Option (TsdOut × TsdState)) := do
  if ← keyBit key then return some (⟨.ptr 0, []⟩, s)
  else return (s.getData cfg t).bind fun tableIndex =>
    let threadData := s.threadTable tableIndex
    if threadData = 0 then some (⟨.ptr 0, []⟩, s)
    else (s.loadEntry cfg threadData key).map fun val => (⟨.ptr val, [s.owned threadData]⟩, s)

/-- The key loop of `ethread_exit`, which reads the word of every key below `ETHREAD_KEYS_MAX`. -/
def scanKeyOn (s : TsdState) (t : Thread) (f : ExitFrame) :
    KeyProgram (Option (TsdOut × TsdState)) := do
  let skip := { f with key := f.key + 1 }
  if f.key < cfg.keysMax then
    if ← keyBit f.key then return some (⟨.none, []⟩, s.goto t (.scan skip))
    else if s.keyDestructor f.key = 0 then return some (⟨.none, []⟩, s.goto t (.scan skip))
    else return (s.loadEntry cfg f.threadData f.key).bind fun value =>
      if value = 0 then some (⟨.none, [s.owned f.threadData]⟩, s.goto t (.scan skip))
      else (s.storeEntry cfg f.threadData f.key 0).map fun s =>
        (⟨.none, [s.owned f.threadData]⟩, s.goto t (.inDestructor f))
  else
    let iterations := f.destructorIterations + 1
    if f.destructorsCalled ∧ iterations ≤ cfg.iterations then
      return some (⟨.none, []⟩, s.goto t (.scan ⟨f.tableIndex, f.threadData, 0, false, iterations⟩))
    else return some (⟨.none, []⟩, s.goto t (.release f))

/-- One step of one thread, as a program over the array instead of a function of the state. -/
def stepOn (s : TsdState) (a : Thread × TsdEvent) : KeyProgram (Option (TsdOut × TsdState)) := do
  match a.2 with
  | .keyCreate destructor newIndex =>
    if (s.pc a.1).mayCall then keyCreateOn cfg s destructor newIndex else return none
  | .keyDelete key => if (s.pc a.1).mayCall then keyDeleteOn s key else return none
  | .setspecific key pointer added answer =>
    if (s.pc a.1).mayCall then setspecificOn cfg s a.1 key pointer added answer else return none
  | .getspecific key => if (s.pc a.1).mayCall then getspecificOn cfg s a.1 key else return none
  | .exitStart => return if s.pc a.1 = .outside then exitStart cfg s a.1 else none
  | .exitNext =>
    match s.pc a.1 with
    | .scan f => scanKeyOn cfg s a.1 f
    | .release f => return releaseTable s a.1 f
    | _ => return none
  | .destructorReturn => return destructorReturn s a.1

/-- A program on the map `m`: the result, with what it makes of the map. -/
def KeyProgram.run (p : KeyProgram (Option (TsdOut × TsdState))) (m : FreeMap 32) :
    Option (TsdOut × TsdState) :=
  (p.exec cfg.beyond m).bind fun r => r.1.map fun x => (x.1, x.2.withKeys r.2)

/-- The indices into `thread_key` of a step: those that its program passes to read and write, on
    the words of the state. -/
def keyIndices (s : TsdState) (a : Thread × TsdEvent) : List Nat :=
  (stepOn cfg (s.withKeys []) a).indices cfg.beyond s.threadKey

variable {cfg} {s s' : TsdState} {t : Thread} {m m' : FreeMap 32} {a : Addr} {k n : Nat}

/-- The words that are there, put there once more. -/
@[simp] theorem withKeys_self (s : TsdState) : s.withKeys s.threadKey = s := rfl

/-- Only the last words count: setting them twice is setting them once. -/
@[simp] theorem withKeys_withKeys (s : TsdState) (m m' : FreeMap 32) :
    (s.withKeys m).withKeys m' = s.withKeys m' := rfl

/-- A program that has come to its end leaves its words in the state. -/
@[simp] theorem run_pure (r : Option (TsdOut × TsdState)) (m : FreeMap 32) :
    KeyProgram.run cfg (Pure.pure r) m = r.map fun x => (x.1, x.2.withKeys m) := rfl

/-! ### The pieces, executed -/

/-- The words that are written are all ones, the others are as they were, by induction on the
    indices. -/
theorem exec_clearKeys {is : List Nat} (his : ∀ i ∈ is, i < m.length) :
    ∃ m', exec cfg.beyond (clearKeys is) m = some ((), m') ∧ m'.length = m.length ∧
      ∀ j < m.length, m'[j]? = if j ∈ is then some (BitVec.allOnes 32) else m[j]? := by
  induction is generalizing m with
  | nil => exact ⟨m, rfl, rfl, by simp⟩
  | cons i is ih =>
    have hi : i < m.length := his i (by simp)
    obtain ⟨m', hexec, hlen, hget⟩ := ih (m := m.set i (BitVec.allOnes 32)) fun j hj => by
      simpa using his j (List.mem_cons_of_mem _ hj)
    refine ⟨m', ?_, by simpa using hlen, fun j hj => ?_⟩
    · simp only [clearKeys, exec_bind, exec_write, hi, if_true, Option.bind_some, hexec]
    · rw [hget j (by simpa using hj), List.getElem?_set]
      by_cases hmem : j ∈ is
      · simp [hmem]
      · by_cases hij : i = j
        · simp [hij, hj]
        · simp [hmem, hij, Ne.symm hij]

/-- Over the whole array, the map is full: every key is free. -/
theorem exec_clearKeys_range (hlen : m.length = n) :
    exec cfg.beyond (clearKeys (List.range n)) m = some ((), FreeMap.full 32 n) := by
  obtain ⟨m', hexec, hlen', hget⟩ := @exec_clearKeys cfg m (List.range n)
    fun i hi => by simpa [hlen] using hi
  have heq : m' = FreeMap.full 32 n := by
    refine List.ext_getElem? fun j => ?_
    by_cases hj : j < n
    · rw [hget j (by omega), if_pos (List.mem_range.mpr hj)]
      simp [FreeMap.full, hj]
    · rw [List.getElem?_eq_none (by omega), List.getElem?_eq_none (by simp [FreeMap.full]; omega)]
  rw [hexec, heq]

/-- Writing back a word that was read modifies it, the bridge from the program to the functions of
    the map. -/
theorem set_getElem_eq_modify {i : Nat} (hi : i < m.length) (f : BitVec 32 → BitVec 32) :
    m.set i (f m[i]) = m.modify i f := by
  refine List.ext_getElem? fun j => ?_
  rw [List.getElem?_set, List.getElem?_modify]
  by_cases hij : i = j
  · subst hij
    simp [hi]
  · simp [hij]

/-- The search from word `i` on: it takes the first word with a bit. -/
theorem exec_findKey (i j : Nat) (hlen : m.length = i + j) :
    exec cfg.beyond (findKey (List.range' i j)) m =
      match (m.drop i).findIdx? (· ≠ 0) with
      | none => some (none, m)
      | some d =>
        let b := lsBit (m.getD (i + d) 0)
        some (some (b + (i + d) * 32), m.modify (i + d) fun x => x &&& ~~~(1#32 <<< b)) := by
  induction j generalizing i with
  | zero =>
    have hnil : m.drop i = [] := List.drop_eq_nil_of_le (by omega)
    simp [findKey, hnil]
  | succ j ih =>
    have hi : i < m.length := by omega
    have hget : m.getD i (cfg.beyond i) = m[i] := by
      rw [List.getD_eq_getElem?_getD, List.getElem?_eq_getElem hi, Option.getD_some]
    have hget0 : m.getD i 0 = m[i] := by
      rw [List.getD_eq_getElem?_getD, List.getElem?_eq_getElem hi, Option.getD_some]
    rw [List.drop_eq_getElem_cons hi, List.findIdx?_cons]
    by_cases hzero : m[i] = 0
    · -- nothing here: the next word
      have hnext := ih (i + 1) (by omega)
      simp only [List.range'_succ, findKey, exec_bind, exec_read, Option.bind_some, hget, hzero,
        ne_eq, not_true_eq_false, if_false, hnext, decide_false, Bool.false_eq_true]
      cases (m.drop (i + 1)).findIdx? fun x => decide (¬x = 0) with
      | none => rfl
      | some d =>
        have hd : i + 1 + d = i + (d + 1) := by omega
        simp only [Option.map_some, hd]
    · -- the bit is cleared in this word
      have hset := set_getElem_eq_modify hi fun x => x &&& ~~~(1#32 <<< lsBit m[i])
      simp only [List.range'_succ, findKey, exec_bind, exec_read, exec_write, Option.bind_some,
        hget, ne_eq, hzero, not_false_eq_true, if_true, hi, exec_pure, decide_true, Nat.add_zero,
        hget0, hset]

/-- Over the whole array, the search hands out the first free key. -/
theorem exec_findKey_range (hlen : m.length = n) :
    exec cfg.beyond (findKey (List.range n)) m =
      match m.alloc with
      | none => some (none, m)
      | some (k, m') => some (some k, m') := by
  have hsearch := @exec_findKey cfg m 0 n (by omega)
  rw [List.range_eq_range', hsearch, FreeMap.alloc, List.drop_zero]
  cases m.findIdx? (· ≠ 0) with
  | none => rfl
  | some d => simp

/-- The bit of a key, read from its word, which may lie behind the array. -/
@[simp] theorem exec_keyBit (key : Nat) (m : FreeMap 32) :
    exec cfg.beyond (keyBit key) m
      = some (bitSet (m.getD (key / 32) (cfg.beyond (key / 32))) (key % 32), m) := by
  simp [keyBit]

/-! ### The rest of the code does not look at the map -/

/-- The heap is not touched when the words are set. -/
@[simp] theorem withKeys_heap (s : TsdState) : (s.withKeys m).heap = s.heap := rfl
@[simp] theorem withKeys_threadTable (s : TsdState) :
    (s.withKeys m).threadTable = s.threadTable := rfl

/-- The registered destructors of the threads are not touched when the words are set. -/
@[simp] theorem withKeys_registered (s : TsdState) :
    (s.withKeys m).registered = s.registered := rfl

/-- The destructors of the keys are kept elsewhere than in the words. -/
@[simp] theorem withKeys_pc (s : TsdState) : (s.withKeys m).pc = s.pc := rfl
@[simp] theorem withKeys_keyDestructor (s : TsdState) :
    (s.withKeys m).keyDestructor = s.keyDestructor := rfl

/-- The data index of the threads is not touched when the words are set. -/
@[simp] theorem withKeys_dataIndex (s : TsdState) : (s.withKeys m).dataIndex = s.dataIndex := rfl
@[simp] theorem withKeys_getData (s : TsdState) :
    (s.withKeys m).getData cfg t = s.getData cfg t := rfl

/-- A table entry is read from the heap, and does not depend on the words. -/
@[simp] theorem withKeys_loadEntry (s : TsdState) :
    (s.withKeys m).loadEntry cfg a k = s.loadEntry cfg a k := rfl

/-- The result of a step, in a state with another map, as the programs below return it. -/
abbrev withKeysResult {α : Type} (m : FreeMap 32) (x : α × TsdState) : α × TsdState :=
  (x.1, x.2.withKeys m)

/-- `table[key] = p` does not look at the words, so it is the same with any map. -/
theorem storeEntry_withKeys (s : TsdState) (p : Ptr) :
    (s.withKeys m).storeEntry cfg a k p = (s.storeEntry cfg a k p).map (·.withKeys m) := by
  unfold TsdState.storeEntry
  simp only [withKeys_heap]
  split
  · cases s.heap.load a with
    | none => rfl
    | some d =>
      simp only [Option.bind_eq_bind, Option.bind_some]
      cases s.heap.store a (Function.update d k p) with
      | none => rfl
      | some h => rfl
  · rfl

/-- Giving a thread a table does not look at the words. -/
theorem newTable_withKeys (s : TsdState) (added : Bool) (answer : Addr) :
    newTable cfg (s.withKeys m) t added answer
      = (newTable cfg s t added answer).map (withKeysResult m) := by
  have hfind : ((TsdState.slots cfg).find? fun i => decide ((s.withKeys m).threadTable i = 0))
      = (TsdState.slots cfg).find? fun i => decide (s.threadTable i = 0) := rfl
  unfold newTable
  rw [hfind]
  simp only [withKeys_heap, withKeys_threadTable, withKeys_registered]
  cases (TsdState.slots cfg).find? fun i => decide (s.threadTable i = 0) with
  | none => rfl
  | some i =>
    cases added with
    | false => rfl
    | true =>
      cases s.heap.malloc answer cfg.garbage with
      | none => rfl
      | some h =>
        cases hstore : h.store answer fun _ => 0 with
        | none => simp [hstore]
        | some h' => simp [hstore, TsdState.withKeys]

/-- Finding the thread's table does not look at the words. -/
theorem localTable_withKeys (s : TsdState) (added : Bool) (answer : Addr) :
    localTable cfg (s.withKeys m) t added answer
      = (localTable cfg s t added answer).map (withKeysResult m) := by
  unfold localTable
  rw [withKeys_getData]
  cases s.getData cfg t with
  | none => rfl
  | some i =>
    simp only [Option.bind_eq_bind, Option.bind_some]
    by_cases htab : s.threadTable i = 0
    · have htab' : (s.withKeys m).threadTable i = 0 := htab
      rw [if_pos htab, if_pos htab']
      exact newTable_withKeys s added answer
    · have htab' : ¬(s.withKeys m).threadTable i = 0 := htab
      rw [if_neg htab, if_neg htab']
      rfl

/-- The start of `ethread_exit` does not look at the words. -/
theorem exitStart_withKeys (s : TsdState) :
    exitStart cfg (s.withKeys m) t = (exitStart cfg s t).map (withKeysResult m) := by
  unfold exitStart
  by_cases hreg : s.registered t = 0
  · have hreg' : (s.withKeys m).registered t = 0 := hreg
    rw [if_pos hreg, if_pos hreg']
    rfl
  · have hreg' : ¬(s.withKeys m).registered t = 0 := hreg
    rw [if_neg hreg, if_neg hreg']
    by_cases hinit : s.dataIndex ≤ cfg.dataMax
    · by_cases htab : s.threadTable (s.threadData t) = 0
      · simp [TsdState.getData, TsdState.withKeys, hinit, htab]
      · simp [TsdState.getData, TsdState.withKeys, TsdState.goto, hinit, htab]
    · simp [TsdState.getData, TsdState.withKeys, hinit]

/-- Freeing the table does not look at the words. -/
theorem releaseTable_withKeys (s : TsdState) (f : ExitFrame) :
    releaseTable (s.withKeys m) t f = (releaseTable s t f).map (withKeysResult m) := by
  unfold releaseTable
  by_cases htab : s.threadTable f.tableIndex = 0
  · simp [TsdState.goto, TsdState.withKeys, htab]
  · cases hfree : s.heap.free (s.threadTable f.tableIndex) with
    | none => simp [TsdState.goto, TsdState.withKeys, htab, hfree]
    | some h => simp [TsdState.goto, TsdState.withKeys, TsdState.owned, htab, hfree]

/-- A returning key destructor does not look at the words. -/
theorem destructorReturn_withKeys (s : TsdState) :
    destructorReturn (s.withKeys m) t = (destructorReturn s t).map (withKeysResult m) := by
  unfold destructorReturn
  simp only [withKeys_pc]
  cases s.pc t with
  | inDestructor f => rfl
  | _ => rfl

/-! ### The programs are the steps -/

/-- A program whose first step tests the bit of a key goes on with what the state has for it. -/
theorem run_keyBit (s : TsdState) (key : Nat) (p : Bool → KeyProgram (Option (TsdOut × TsdState))) :
    KeyProgram.run cfg (keyBit key >>= p) s.threadKey
      = KeyProgram.run cfg (p (s.keyFree cfg key)) s.threadKey := by
  simp only [KeyProgram.run, exec_bind, exec_keyBit, Option.bind_some]
  rfl

/-- `ethread_key_create`, past the first time initialization, on a map of its size. -/
theorem createOn_run (s : TsdState) {d : Addr} (hlen : m.length = cfg.keysMax / 32) :
    KeyProgram.run cfg (createOn cfg (s.withKeys []) d) m = match m.alloc with
      | none => some (⟨.int (some .EAGAIN), []⟩, s.withKeys m)
      | some (k, m') => (s.plant cfg k).map fun h =>
        (⟨.key k, ((TsdState.slots cfg).map s.threadTable).filter (· ≠ 0) |>.map s.owned⟩,
          { s with
            threadKey := m'
            keyDestructor := Function.update s.keyDestructor k d
            heap := h }) := by
  simp only [KeyProgram.run, createOn, exec_bind, exec_findKey_range hlen]
  cases m.alloc with
  | none => rfl
  | some km =>
    obtain ⟨k, m'⟩ := km
    have hplant : TsdState.plant cfg { s.withKeys [] with
        keyDestructor := Function.update (s.withKeys []).keyDestructor k d } k
        = s.plant cfg k := rfl
    simp only [Option.bind_some, exec_pure, hplant]
    cases s.plant cfg k with
    | none => rfl
    | some h => rfl

/-- `ethread_key_create`, run on the words of the state, is the function of before. -/
theorem keyCreateOn_run {d : Addr} (hlen : s.threadKey.length = cfg.keysMax / 32) :
    KeyProgram.run cfg (keyCreateOn cfg (s.withKeys []) d n) s.threadKey = keyCreate cfg s d n := by
  -- past the initialization, to index `i` and map `m`, the two do the same
  have hrest : ∀ i m, initKeys cfg s n = some { s with dataIndex := i, threadKey := m } →
      m.length = cfg.keysMax / 32 →
      KeyProgram.run cfg (createOn cfg { s.withKeys [] with dataIndex := i } d) m
        = keyCreate cfg s d n := by
    intro i m hinit hm
    have hrun := createOn_run { s with dataIndex := i } (d := d) hm
    rw [show ({ s.withKeys [] with dataIndex := i } : TsdState)
      = ({ s with dataIndex := i } : TsdState).withKeys [] from rfl, hrun]
    simp only [keyCreate, hinit, Option.bind_eq_bind, Option.bind_some]
    cases m.alloc with
    | none => rfl
    | some km =>
      obtain ⟨k, m'⟩ := km
      have hplant : TsdState.plant cfg { s with
          dataIndex := i
          threadKey := m'
          keyDestructor := Function.update s.keyDestructor k d } k = s.plant cfg k := rfl
      have hplant' : TsdState.plant cfg { s with dataIndex := i } k = s.plant cfg k := rfl
      simp only [hplant, hplant']
      cases s.plant cfg k with
      | none => rfl
      | some h => rfl
  unfold keyCreateOn
  by_cases hfirst : cfg.dataMax < s.dataIndex
  · have hfirst' : cfg.dataMax < (s.withKeys []).dataIndex := hfirst
    rw [if_pos hfirst']
    by_cases hn : n ≤ cfg.dataMax
    · rw [if_pos hn]
      simp only [KeyProgram.run, exec_bind, exec_clearKeys_range hlen, Option.bind_some]
      exact hrest n _ (by simp [initKeys, hfirst, hn]) (by simp [FreeMap.full])
    · rw [if_neg hn]
      simp [keyCreate, initKeys, hfirst, hn]
  · have hfirst' : ¬cfg.dataMax < (s.withKeys []).dataIndex := hfirst
    rw [if_neg hfirst']
    exact hrest s.dataIndex s.threadKey (by simp [initKeys, hfirst]) hlen

/-- `ethread_key_delete`, run on the words of the state, is the function of before. -/
theorem keyDeleteOn_run (s : TsdState) (key : Nat) :
    KeyProgram.run cfg (keyDeleteOn (s.withKeys []) key) s.threadKey = keyDelete s key := by
  by_cases hk : key / 32 < s.threadKey.length
  · have hget : s.threadKey.getD (key / 32) (cfg.beyond (key / 32)) = s.threadKey[key / 32] := by
      rw [List.getD_eq_getElem?_getD, List.getElem?_eq_getElem hk, Option.getD_some]
    have hset := set_getElem_eq_modify hk fun x => x ||| (1#32 <<< (key % 32))
    simp only [KeyProgram.run, keyDeleteOn, exec_bind, exec_read, exec_write, Option.bind_some, hk,
      if_true, hget, hset, exec_pure, Option.map_some, keyDelete, FreeMap.release]
    rfl
  · simp [KeyProgram.run, keyDeleteOn, keyDelete, hk]

/-- `ethread_setspecific`, run on the words of the state, is the function of before. -/
theorem setspecificOn_run (s : TsdState) (key : Nat) (p : Ptr) (added : Bool) (answer : Addr) :
    KeyProgram.run cfg (setspecificOn cfg (s.withKeys []) t key p added answer) s.threadKey
      = setspecific cfg s t key p added answer := by
  unfold setspecificOn setspecific
  rw [run_keyBit]
  cases s.keyFree cfg key with
  | true => simp
  | false =>
    have hlocal : localTable cfg s t added answer
        = (localTable cfg (s.withKeys []) t added answer).map (withKeysResult s.threadKey) :=
      localTable_withKeys (s.withKeys []) added answer
    simp only [Bool.false_eq_true, if_false, run_pure, hlocal]
    cases localTable cfg (s.withKeys []) t added answer with
    | none => rfl
    | some r =>
      obtain ⟨x, s₁⟩ := r
      cases x with
      | error err => rfl
      | ok table =>
        have hstore := @storeEntry_withKeys cfg s.threadKey table key s₁ p
        simp only [Option.bind_some, Option.map_some, Option.bind_eq_bind, hstore]
        cases s₁.storeEntry cfg table key p with
        | none => rfl
        | some s₂ => rfl

/-- `ethread_getspecific`, run on the words of the state, is the function of before. -/
theorem getspecificOn_run (s : TsdState) (key : Nat) :
    KeyProgram.run cfg (getspecificOn cfg (s.withKeys []) t key) s.threadKey
      = getspecific cfg s t key := by
  unfold getspecificOn getspecific
  rw [run_keyBit]
  cases s.keyFree cfg key with
  | true => simp
  | false =>
    simp only [Bool.false_eq_true, if_false, run_pure, withKeys_getData]
    cases s.getData cfg t with
    | none => rfl
    | some i =>
      simp only [Option.bind_some, Option.bind_eq_bind, withKeys_loadEntry]
      by_cases htab : s.threadTable i = 0
      · have htab' : (s.withKeys []).threadTable i = 0 := htab
        rw [if_pos htab, if_pos htab']
        rfl
      · have htab' : ¬(s.withKeys []).threadTable i = 0 := htab
        rw [if_neg htab, if_neg htab']
        simp only [withKeys_threadTable]
        cases s.loadEntry cfg (s.threadTable i) key with
        | none => rfl
        | some val => rfl

/-- The key loop of `ethread_exit`, run on the words of the state, is the function of before. -/
theorem scanKeyOn_run (s : TsdState) (f : ExitFrame) :
    KeyProgram.run cfg (scanKeyOn cfg (s.withKeys []) t f) s.threadKey = scanKey cfg s t f := by
  unfold scanKeyOn scanKey
  by_cases hk : f.key < cfg.keysMax
  · simp only [hk, if_true]
    rw [run_keyBit]
    cases s.keyFree cfg f.key with
    | true => rfl
    | false =>
      -- an allocated key: the rest does not look at the words
      simp only [Bool.false_eq_true, if_false, withKeys_loadEntry]
      by_cases hdtor : s.keyDestructor f.key = 0
      · have hdtor' : (s.withKeys []).keyDestructor f.key = 0 := hdtor
        rw [if_pos hdtor, if_pos hdtor']
        rfl
      · have hdtor' : ¬(s.withKeys []).keyDestructor f.key = 0 := hdtor
        rw [if_neg hdtor, if_neg hdtor', run_pure]
        cases s.loadEntry cfg f.threadData f.key with
        | none => rfl
        | some value =>
          simp only [Option.bind_some, Option.bind_eq_bind]
          by_cases hvalue : value = 0
          · rw [if_pos hvalue, if_pos hvalue]
            rfl
          · rw [if_neg hvalue, if_neg hvalue]
            have hstore : s.storeEntry cfg f.threadData f.key 0
                = ((s.withKeys []).storeEntry cfg f.threadData f.key 0).map
                  (·.withKeys s.threadKey) := storeEntry_withKeys (s.withKeys []) 0
            rw [hstore]
            cases (s.withKeys []).storeEntry cfg f.threadData f.key 0 with
            | none => rfl
            | some s₁ => rfl
  -- the end of the pass
  · simp only [hk, if_false]
    by_cases hagain : f.destructorsCalled = true ∧ f.destructorIterations + 1 ≤ cfg.iterations
    · simp only [hagain, and_self, if_true]
      rfl
    · simp only [hagain, if_false]
      rfl

/-- A program behind a condition on the thread, undefined otherwise. -/
theorem run_if {c c' : Prop} [Decidable c] [Decidable c'] (hc : c ↔ c')
    {p : KeyProgram (Option (TsdOut × TsdState))} {r : Option (TsdOut × TsdState)}
    (hp : KeyProgram.run cfg p m = r) :
    KeyProgram.run cfg (if c then p else Pure.pure none) m = if c' then r else none := by
  by_cases h : c
  · rw [if_pos h, if_pos (hc.mp h), hp]
  · rw [if_neg h, if_neg fun h' => h (hc.mpr h')]
    rfl

/-- **The steps as programs.**  On a map of its size, the program of a step does what the step
    does, with the same answer. -/
theorem stepOn_run (hlen : s.threadKey.length = cfg.keysMax / 32) (b : Thread × TsdEvent) :
    KeyProgram.run cfg (stepOn cfg (s.withKeys []) b) s.threadKey = stepTsd cfg s b := by
  obtain ⟨t, e⟩ := b
  unfold stepOn stepTsd
  cases e with
  | keyCreate d n => exact run_if Iff.rfl (keyCreateOn_run hlen)
  | keyDelete key => exact run_if Iff.rfl (keyDeleteOn_run s key)
  | setspecific key p added answer =>
    exact run_if Iff.rfl (setspecificOn_run s key p added answer)
  | getspecific key => exact run_if Iff.rfl (getspecificOn_run s key)
  -- these calls do not look at the words
  | exitStart =>
    have hstart := @exitStart_withKeys cfg t s.threadKey (s.withKeys [])
    dsimp only
    rw [run_pure]
    by_cases hpc : s.pc t = .outside
    · have hpc' : (s.withKeys []).pc t = .outside := hpc
      rw [if_pos hpc, if_pos hpc']
      exact hstart.symm
    · have hpc' : ¬(s.withKeys []).pc t = .outside := hpc
      rw [if_neg hpc, if_neg hpc']
      rfl
  | exitNext =>
    dsimp only [exitNext]
    rw [withKeys_pc]
    cases s.pc t with
    | scan f => exact scanKeyOn_run s f
    | release f => exact (releaseTable_withKeys (s.withKeys []) f).symm
    | _ => rfl
  | destructorReturn => exact (destructorReturn_withKeys (s.withKeys [])).symm

/-! ### Which words they use -/

/-- The initialisation stays inside the array when the indices it goes through do. -/
theorem inside_clearKeys {is : List Nat} (his : ∀ i ∈ is, i < n) :
    Inside cfg.beyond (clearKeys is) m n := by
  induction is generalizing m with
  | nil => exact inside_pure ()
  | cons i is ih =>
    simp only [clearKeys, inside_bind, inside_write]
    exact ⟨his i (by simp), fun _ _ _ => ih fun j hj => his j (List.mem_cons_of_mem _ hj)⟩

/-- The search for a free key is inside when its indices are. -/
theorem inside_findKey {is : List Nat} (his : ∀ i ∈ is, i < n) :
    Inside cfg.beyond (findKey is) m n := by
  induction is generalizing m with
  | nil => exact inside_pure none
  | cons i is ih =>
    have hi : i < n := his i (by simp)
    simp only [findKey, inside_bind, inside_read]
    refine ⟨hi, fun x m' _ => ?_⟩
    split
    · simp only [inside_bind, inside_read, inside_write, inside_pure, hi, implies_true, and_self]
    · exact ih fun j hj => his j (List.mem_cons_of_mem _ hj)

/-- The read for a key is inside when its word is, which is where the configuration comes in. -/
@[simp] theorem inside_keyBit (key : Nat) :
    Inside cfg.beyond (keyBit key) m n ↔ key / 32 < n := by
  simp [keyBit]

/-- A test of a key's bit uses the word of the key, whatever follows it uses none. -/
theorem inside_keyBit_bind {key : Nat} {p : Bool → KeyProgram (Option (TsdOut × TsdState))}
    (hkey : key / 32 < n) (hp : ∀ b m', Inside cfg.beyond (p b) m' n) :
    Inside cfg.beyond (keyBit key >>= p) m n := by
  simp only [inside_bind, inside_keyBit]
  exact ⟨hkey, fun b m' _ => hp b m'⟩

/-- `ethread_key_create` stays inside, past the first time initialization. -/
theorem inside_createOn (s : TsdState) (d : Addr) :
    Inside cfg.beyond (createOn cfg s d) m (cfg.keysMax / 32) := by
  simp only [createOn, inside_bind]
  refine ⟨inside_findKey fun i hi => List.mem_range.mp hi, fun k m' _ => ?_⟩
  cases k with
  | none => exact inside_pure _
  | some k => exact inside_pure _

/-- `ethread_key_create` stays inside in every configuration: its loops have the bound of the
    array. -/
theorem inside_keyCreateOn (s : TsdState) (d : Addr) (n : Nat) :
    Inside cfg.beyond (keyCreateOn cfg s d n) m (cfg.keysMax / 32) := by
  unfold keyCreateOn
  split
  · split
    · simp only [inside_bind]
      exact ⟨inside_clearKeys fun i hi => List.mem_range.mp hi, fun _ _ _ => inside_createOn _ d⟩
    · exact inside_pure none
  · exact inside_createOn s d

/-- `ethread_key_delete` uses the word of its key, and no other. -/
theorem inside_keyDeleteOn (s : TsdState) {key : Nat} (hkey : key / 32 < n) :
    Inside cfg.beyond (keyDeleteOn s key) m n := by
  simp only [keyDeleteOn, inside_bind, inside_read, inside_write, inside_pure, hkey, implies_true,
    and_self]

/-- So does `ethread_setspecific`, whatever its other arguments are. -/
theorem inside_setspecificOn (s : TsdState) {key : Nat} (p : Ptr) (added : Bool) (answer : Addr)
    (hkey : key / 32 < n) : Inside cfg.beyond (setspecificOn cfg s t key p added answer) m n := by
  refine inside_keyBit_bind hkey fun b m' => ?_
  cases b with
  | true => exact inside_pure _
  | false => exact inside_pure _

/-- So does `ethread_getspecific`, for whichever thread calls it. -/
theorem inside_getspecificOn (s : TsdState) {key : Nat} (hkey : key / 32 < n) :
    Inside cfg.beyond (getspecificOn cfg s t key) m n := by
  refine inside_keyBit_bind hkey fun b m' => ?_
  cases b with
  | true => exact inside_pure _
  | false => exact inside_pure _

/-- The key loop uses the word of the key it looks at. -/
theorem inside_scanKeyOn (s : TsdState) {f : ExitFrame}
    (hkey : f.key < cfg.keysMax → f.key / 32 < n) :
    Inside cfg.beyond (scanKeyOn cfg s t f) m n := by
  unfold scanKeyOn
  dsimp only
  split
  · refine inside_keyBit_bind (hkey ‹_›) fun b m' => ?_
    cases b with
    | true => exact inside_pure _
    | false =>
      simp only [Bool.false_eq_true, if_false]
      split
      · exact inside_pure _
      · exact inside_pure _
  · split
    · exact inside_pure _
    · exact inside_pure _

/-- The key loop uses the word of the key it looks at. -/
theorem mem_keyIndices_scan {f : ExitFrame} (hpc : s.pc t = .scan f) (hk : f.key < cfg.keysMax) :
    f.key / 32 ∈ keyIndices cfg s (t, .exitNext) := by
  have hpc' : (s.withKeys []).pc t = .scan f := hpc
  have hstep : stepOn cfg (s.withKeys []) (t, .exitNext)
      = scanKeyOn cfg (s.withKeys []) t f := by
    simp only [stepOn, hpc']
  rw [keyIndices, hstep]
  simp only [scanKeyOn, hk, if_true]
  exact List.mem_cons_self

end Ecos.Ethread
