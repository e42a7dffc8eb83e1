import Ecos.Lib.CString
import Mathlib.Data.List.DropRight

namespace Ecos.Sqlite

open Ecos.Lib

/-!
# The names of temporary files and journals

`getTempname` of `os_unix.c` and the part of `sqlite3PagerOpen` of `pager.c` that builds the
name of the rollback journal, with the formatted output of `printf.c` that both use.

* `StrAccum`, `sqlite3StrAccumAppend`, `sqlite3_snprintf` — output into a buffer of fixed size;
* `TempEnv`, `getTempname` — the name of a temporary file;
* `unixFullPathname`, `sqlite3PagerOpen` — the two names in the memory of a pager;
* `TempName`, `DosName` — what the port needs of these names on a FAT file system;
* `file_names` — when `getTempname` gives such a name, and that `sqlite3PagerOpen` does.
-/

/-- The result codes of the functions that make file names. -/
inductive NameRc
  | OK | ERROR | CANTOPEN | NOMEM
  deriving DecidableEq, Repr

/-! ### Output into a buffer -/

/-- `sqlite3Strlen30`: the length of a string, in 30 bits -/
def sqlite3Strlen30 (z : List UInt8) : Nat := strlen z % 2 ^ 30

/-- `struct StrAccum`, as `sqlite3_snprintf` uses it: `useMalloc` is 0, so that the buffer does not
    grow. -/
structure StrAccum where
  zText : List UInt8
  nChar : Nat
  nAlloc : Nat
  tooBig : Bool
  deriving DecidableEq, Repr

/-- `sqlite3StrAccumAppend`, for the bytes `z` that its length argument selects. -/
def sqlite3StrAccumAppend (p : StrAccum) (z : List UInt8) : StrAccum :=
  if p.tooBig then p
  else if z = [] then p
  else if p.nAlloc ≤ p.nChar + z.length then
    -- `N = p->nAlloc - p->nChar - 1; if( N<=0 ) return;`
    let z := z.take (p.nAlloc - p.nChar - 1)
    { p with tooBig := true, zText := memcpy p.zText p.nChar z, nChar := p.nChar + z.length }
  else { p with zText := memcpy p.zText p.nChar z, nChar := p.nChar + z.length }

/-- A piece of a format, as the two calls have them. -/
inductive Conversion
  /-- The text between two conversions. -/
  | text (z : List UInt8)
  /-- `%s`, with its argument. -/
  | str (z : List UInt8)
  deriving DecidableEq, Repr

/-- The bytes that a piece of a format puts out, however long the buffer is. -/
def Conversion.bytes : Conversion → List UInt8
  | text z => z
  | str z => (cstr z).take (sqlite3Strlen30 z)

/-- `sqlite3VXPrintf`, for formats of text and `%s`, one piece after the other. -/
def sqlite3VXPrintf (pAccum : StrAccum) : List Conversion → StrAccum
  | [] => pAccum
  | c :: fmt => sqlite3VXPrintf (sqlite3StrAccumAppend pAccum c.bytes) fmt

/-- `sqlite3_snprintf`: what does not fit is cut, and the terminator is always there. -/
def sqlite3_snprintf (n : Nat) (zBuf : List UInt8) (zFormat : List Conversion) : List UInt8 :=
  if n = 0 then zBuf
  else
    let acc := sqlite3VXPrintf ⟨zBuf, 0, n, false⟩ zFormat
    -- `sqlite3StrAccumFinish`
    memcpy acc.zText acc.nChar [0]

/-- The whole output of a format, as it would be in a buffer that is long enough. -/
def output (zFormat : List Conversion) : List UInt8 := zFormat.flatMap Conversion.bytes

/-- The accumulator `a` has been given `t`: it holds as much of it as it has room for. -/
structure StrAccum.Holds (a : StrAccum) (t : List UInt8) : Prop where
  chars : t.take (a.nAlloc - 1) <+: a.zText
  nChar : a.nChar = (t.take (a.nAlloc - 1)).length
  tooBig : a.tooBig = true ↔ a.nAlloc ≤ t.length
  room : a.nAlloc ≤ a.zText.length
  pos : 0 < a.nAlloc

/-- Output keeps the size of the buffer and what the accumulator may use of it. -/
structure StrAccum.Same (a a' : StrAccum) : Prop where
  nAlloc : a'.nAlloc = a.nAlloc
  length : a'.zText.length = a.zText.length

/-- **One append.**  The accumulator holds what it was given before, followed by the new text. -/
theorem append_holds {a : StrAccum} {t : List UInt8} (h : a.Holds t) (z : List UInt8) :
    (sqlite3StrAccumAppend a z).Holds (t ++ z) ∧ a.Same (sqlite3StrAccumAppend a z) := by
  have hroom := h.room
  have hpos := h.pos
  have hn := h.nChar
  rw [List.length_take] at hn
  unfold sqlite3StrAccumAppend
  split
  · -- full before: the rest is dropped
    rename_i hbig
    have hle := h.tooBig.mp hbig
    have htake : (t ++ z).take (a.nAlloc - 1) = t.take (a.nAlloc - 1) :=
      List.take_append_of_le_length (by omega)
    refine ⟨⟨htake ▸ h.chars, htake ▸ h.nChar, ?_, hroom, hpos⟩, rfl, rfl⟩
    rw [List.length_append]
    exact ⟨fun _ => by omega, fun _ => hbig⟩
  rename_i hbig
  have hlt : t.length < a.nAlloc := by
    have : ¬ a.nAlloc ≤ t.length := fun hle => hbig (h.tooBig.mpr hle)
    omega
  have hall : t.take (a.nAlloc - 1) = t := List.take_of_length_le (by omega)
  have hchars : t <+: a.zText := by simpa only [hall] using h.chars
  have hlen : a.nChar = t.length := by omega
  split
  · rename_i hz
    subst hz
    rw [List.append_nil]
    exact ⟨h, rfl, rfl⟩
  split
  · -- the text that fills the buffer
    rename_i hfull
    have htake : (t ++ z).take (a.nAlloc - 1) = t ++ z.take (a.nAlloc - a.nChar - 1) := by
      rw [List.take_append, List.take_of_length_le (by omega), hlen]
      congr 2
      omega
    refine ⟨⟨?_, ?_, ?_, ?_, hpos⟩, rfl, ?_⟩
    · rw [htake, hlen]
      exact prefix_memcpy hchars _
    · rw [htake, List.length_append, ← hlen]
    · have hle : a.nAlloc ≤ (t ++ z).length := by
        rw [List.length_append]
        omega
      exact ⟨fun _ => hle, fun _ => rfl⟩
    · rw [length_memcpy (by rw [List.length_take]; omega)]
      exact hroom
    · rw [length_memcpy (by rw [List.length_take]; omega)]
  · -- there is room for all of it
    rename_i hfits
    have htake : (t ++ z).take (a.nAlloc - 1) = t ++ z :=
      List.take_of_length_le (by rw [List.length_append]; omega)
    refine ⟨⟨?_, ?_, ?_, ?_, hpos⟩, rfl, ?_⟩
    · rw [htake, hlen]
      exact prefix_memcpy hchars _
    · rw [htake, List.length_append, ← hlen]
    · have hnot : ¬ a.nAlloc ≤ (t ++ z).length := by
        rw [List.length_append]
        omega
      exact ⟨fun h' => absurd h' hbig, fun h' => absurd h' hnot⟩
    · rw [length_memcpy (by omega)]
      exact hroom
    · rw [length_memcpy (by omega)]

/-- All of a format is accumulated piece by piece, as far as the buffer reaches. -/
theorem vxprintf_holds (zFormat : List Conversion) {a : StrAccum} {t : List UInt8}
    (h : a.Holds t) :
    (sqlite3VXPrintf a zFormat).Holds (t ++ output zFormat) ∧
      a.Same (sqlite3VXPrintf a zFormat) := by
  induction zFormat generalizing a t with
  | nil => exact ⟨by simpa [output, sqlite3VXPrintf] using h, rfl, rfl⟩
  | cons c fmt ih =>
    obtain ⟨hstep, hsame⟩ := append_holds h c.bytes
    obtain ⟨hrest, hsame'⟩ := ih hstep
    refine ⟨?_, hsame'.nAlloc.trans hsame.nAlloc, hsame'.length.trans hsame.length⟩
    simpa [output, sqlite3VXPrintf, List.append_assoc] using hrest

/-- **`sqlite3_snprintf`.**  The buffer begins with as much of the output as fits, and its
    terminator. -/
theorem snprintf_holds {n : Nat} {zBuf : List UInt8} (zFormat : List Conversion) (hpos : 0 < n)
    (hroom : n ≤ zBuf.length) :
    (output zFormat).take (n - 1) ++ [0] <+: sqlite3_snprintf n zBuf zFormat ∧
      (sqlite3_snprintf n zBuf zFormat).length = zBuf.length := by
  have hinit : (⟨zBuf, 0, n, false⟩ : StrAccum).Holds [] := by
    refine ⟨?_, ?_, ?_, hroom, hpos⟩
    · rw [List.take_nil]
      exact List.nil_prefix
    · rw [List.take_nil]
      rfl
    · exact ⟨nofun, fun h => absurd h (by simp; omega)⟩
  obtain ⟨hall, hn, hlen⟩ := vxprintf_holds zFormat hinit
  simp only at hn hlen
  have hchars := hall.chars
  have hnChar := hall.nChar
  rw [List.nil_append, hn] at hchars hnChar
  rw [sqlite3_snprintf, if_neg (by omega)]
  dsimp only
  constructor
  · rw [hnChar]
    exact prefix_memcpy hchars [0]
  · rw [length_memcpy, hlen]
    rw [hlen, hnChar, List.length_take]
    simp only [List.length_singleton]
    omega

/-- The string that `sqlite3_snprintf` leaves in the buffer is the output, cut to its size. -/
theorem cstr_snprintf {n : Nat} {zBuf : List UInt8} {zFormat : List Conversion} (hpos : 0 < n)
    (hroom : n ≤ zBuf.length) (h0 : 0 ∉ output zFormat) :
    cstr (sqlite3_snprintf n zBuf zFormat) = (output zFormat).take (n - 1) := by
  obtain ⟨⟨rest, hrest⟩, -⟩ := snprintf_holds zFormat hpos hroom
  rw [← hrest, List.append_assoc]
  exact cstr_append_zero (fun h => h0 (List.mem_of_mem_take h)) rest

/-! ### `getTempname` -/

/-- `SQLITE_TEMP_FILE_PREFIX`, by the port's build flags: `"s"`. -/
def SQLITE_TEMP_FILE_PREFIX : List UInt8 := [115]

/-- `zChars`: the letters and digits of which the random part of a name is made. -/
def zChars : List UInt8 :=
  (List.range' 97 26 ++ List.range' 65 26 ++ List.range' 48 10).map UInt8.ofNat

/-- `zChars[ b%(sizeof(zChars)-1) ]`: the character of the name that a random byte stands for -/
def zChar (b : UInt8) : UInt8 := zChars.getD (b.toNat % 62) 0

/-- What `getTempname` asks the system for, as answers that do not change during the call. -/
structure TempEnv where
  sqlite3_temp_directory : Option (List UInt8)
  /-- `azDirs[1]`: what `getenv("TMPDIR")` gave when it first gave something. -/
  tmpdir : Option (List UInt8)
  /-- `stat`; is it a directory? -/
  stat : List UInt8 → Option Bool
  /-- `access(z, mode) == 0` -/
  access : List UInt8 → Nat → Bool

/-- `azDirs`: the directories that are tried, in order; some may be missing. -/
def TempEnv.azDirs (E : TempEnv) : List (Option (List UInt8)) :=
  [E.sqlite3_temp_directory, E.tmpdir, some [47, 118, 97, 114, 47, 116, 109, 112],
    some [47, 117, 115, 114, 47, 116, 109, 112], some [47, 116, 109, 112], some [46]]

/-- `zDir` after the loop over `azDirs`: the first that is usable, or the current directory. -/
def TempEnv.zDir (E : TempEnv) : List UInt8 :=
  let usable (z : List UInt8) : Bool := E.stat (cstr z) = some true ∧ E.access (cstr z) 7
  ((E.azDirs.filterMap id).find? usable).getD [46]

/-- The loop that turns `n` random bytes from `zBuf[j]` on into characters. -/
def pickChars : Nat → Nat → List UInt8 → List UInt8
  | 0, _, zBuf => zBuf
  | n + 1, j, zBuf => pickChars n (j + 1) (zBuf.set j (zChar (zBuf.getD j 0)))

/-- The body of the loop of `getTempname`; `r` is what `sqlite3_randomness` delivers. -/
def tempRound (zDir : List UInt8) (nBuf : Nat) (zBuf : List UInt8) (r : Vector UInt8 15) :
    List UInt8 :=
  let zBuf := sqlite3_snprintf (nBuf - 17) zBuf
    [.str zDir, .text (47 :: SQLITE_TEMP_FILE_PREFIX)]
  let j := strlen zBuf
  let zBuf := memcpy zBuf j r.toList
  let zBuf := pickChars 8 j zBuf
  zBuf.set (j + 8) 0

/-- The loop of `getTempname`, from its round `k` on: it ends with a name that `access` does not
    find. -/
def tempLoop (E : TempEnv) (nBuf : Nat) (sqlite3_randomness : Nat → Vector UInt8 15) :
    Nat → Nat → List UInt8 → Option (NameRc × List UInt8)
  | 0, _, _ => none
  | fuel + 1, k, zBuf =>
    let zBuf := tempRound E.zDir nBuf zBuf (sqlite3_randomness k)
    if E.access (cstr zBuf) 0 then tempLoop E nBuf sqlite3_randomness fuel (k + 1) zBuf
    else some (.OK, zBuf)

/-- `getTempname`, with what `sqlite3_randomness` delivers in each round, for as many rounds as
    there is fuel. -/
def getTempname (E : TempEnv) (sqlite3_randomness : Nat → Vector UInt8 15) (fuel nBuf : Nat)
    (zBuf : List UInt8) : Option (NameRc × List UInt8) :=
  if nBuf ≤ strlen E.zDir + SQLITE_TEMP_FILE_PREFIX.length + 17 then some (.ERROR, zBuf)
  else tempLoop E nBuf sqlite3_randomness fuel 0 zBuf

/-! ### The name of a round -/

/-- A letter or a digit, as a DOS name may have them. -/
def IsAlnum (b : UInt8) : Prop := (97 ≤ b ∧ b ≤ 122) ∨ (65 ≤ b ∧ b ≤ 90) ∨ (48 ≤ b ∧ b ≤ 57)

instance : DecidablePred IsAlnum := fun b => by unfold IsAlnum; infer_instance

/-- The characters are letters and digits, whatever the random bytes. -/
theorem isAlnum_zChar (b : UInt8) : IsAlnum (zChar b) := by
  have hall : ∀ n < 62, IsAlnum (zChars.getD n 0) := by decide
  exact hall _ (Nat.mod_lt _ (by omega))

/-- Which random bytes give the character of the prefix: one residue of 62. -/
theorem zChar_eq_s (b : UInt8) : zChar b = 115 ↔ b.toNat % 62 = 18 := by
  have hall : ∀ n < 62, zChars.getD n 0 = 115 ↔ n = 18 := by decide
  exact hall _ (Nat.mod_lt _ (by omega))

/-- A letter or a digit does not end a string. -/
theorem IsAlnum.ne_zero {b : UInt8} (h : IsAlnum b) : b ≠ 0 := by
  rintro rfl
  exact absurd h (by decide)

/-- The loop replaces the bytes from `j` on by their characters. -/
theorem pickChars_append (p r q : List UInt8) :
    pickChars r.length p.length (p ++ r ++ q) = p ++ r.map zChar ++ q := by
  induction r generalizing p with
  | nil => rfl
  | cons b r ih =>
    have hget : (p ++ b :: r ++ q).getD p.length 0 = b := by simp
    have hset : (p ++ b :: r ++ q).set p.length (zChar b) = (p ++ [zChar b]) ++ r ++ q := by simp
    have hlen : p.length + 1 = (p ++ [zChar b]).length := by simp
    rw [List.length_cons, pickChars, hget, hset, hlen, ih]
    simp

/-- The part of a name that the format puts out: `"%s/"SQLITE_TEMP_FILE_PREFIX`, as far as it
    fits. -/
def tempStem (zDir : List UInt8) (nBuf : Nat) : List UInt8 :=
  ((cstr zDir).take (sqlite3Strlen30 zDir) ++ 47 :: SQLITE_TEMP_FILE_PREFIX).take (nBuf - 18)

/-- The name that a round tries: the directory, the prefix and eight characters. -/
def tempName (zDir : List UInt8) (nBuf : Nat) (r : Vector UInt8 15) : List UInt8 :=
  tempStem zDir nBuf ++ (r.toList.take 8).map zChar

/-- The part before the random characters has no zero byte. -/
theorem zero_notMem_tempStem (zDir : List UInt8) (nBuf : Nat) : 0 ∉ tempStem zDir nBuf := by
  intro h
  rcases List.mem_append.mp (List.mem_of_mem_take h) with hdir | hpre
  · exact zero_notMem_cstr _ (List.mem_of_mem_take hdir)
  · exact absurd hpre (by decide)

/-- The name has no zero byte, so the string ends where the name does. -/
theorem zero_notMem_tempName (zDir : List UInt8) (nBuf : Nat) (r : Vector UInt8 15) :
    0 ∉ tempName zDir nBuf r := by
  intro h
  rcases List.mem_append.mp h with hstem | hchars
  · exact zero_notMem_tempStem zDir nBuf hstem
  · obtain ⟨b, -, hb⟩ := List.mem_map.mp hchars
    exact (isAlnum_zChar b).ne_zero hb

/-- **One round.**  The name stands in the buffer with its terminator, inside the `nBuf`
    bytes. -/
theorem tempRound_holds (zDir : List UInt8) {nBuf : Nat} {zBuf : List UInt8}
    (r : Vector UInt8 15) (hpass : 18 < nBuf) (hbuf : nBuf ≤ zBuf.length) :
    tempName zDir nBuf r ++ [0] <+: tempRound zDir nBuf zBuf r ∧
      (tempRound zDir nBuf zBuf r).length = zBuf.length := by
  have hout : output [.str zDir, .text (47 :: SQLITE_TEMP_FILE_PREFIX)]
      = (cstr zDir).take (sqlite3Strlen30 zDir) ++ 47 :: SQLITE_TEMP_FILE_PREFIX := by
    simp [output, Conversion.bytes]
  have hzero : 0 ∉ output [.str zDir, .text (47 :: SQLITE_TEMP_FILE_PREFIX)] := by
    rw [hout]
    intro h
    rcases List.mem_append.mp h with hdir | hpre
    · exact zero_notMem_cstr _ (List.mem_of_mem_take hdir)
    · exact absurd hpre (by decide)
  have hpos : 0 < nBuf - 17 := by omega
  have hroom : nBuf - 17 ≤ zBuf.length := by omega
  have hstr := cstr_snprintf hpos hroom hzero
  obtain ⟨hbegin, hlen⟩ :=
    snprintf_holds [.str zDir, .text (47 :: SQLITE_TEMP_FILE_PREFIX)] hpos hroom
  rw [hout, show nBuf - 17 - 1 = nBuf - 18 by omega] at hstr hbegin
  change cstr _ = tempStem zDir nBuf at hstr
  change tempStem zDir nBuf ++ [0] <+: _ at hbegin
  unfold tempRound
  dsimp only
  generalize sqlite3_snprintf (nBuf - 17) zBuf
    [.str zDir, .text (47 :: SQLITE_TEMP_FILE_PREFIX)] = b at hstr hbegin hlen ⊢
  have hj : strlen b = (tempStem zDir nBuf).length := by rw [strlen, hstr]
  have hstem : (tempStem zDir nBuf).length ≤ nBuf - 18 := List.length_take_le _ _
  have hlen' : (memcpy b (strlen b) r.toList).length = zBuf.length := by
    rw [length_memcpy, hlen]
    rw [hlen, hj, Vector.length_toList]
    omega
  -- the buffer after the random bytes: the stem, eight of them, one more, and the rest
  obtain ⟨rest, hrest⟩ := prefix_memcpy ((List.prefix_append _ _).trans hbegin) r.toList
  obtain ⟨x, xs, hx⟩ : ∃ x xs, r.toList.drop 8 = x :: xs := by
    apply List.exists_cons_of_length_pos
    rw [List.length_drop, Vector.length_toList]
    omega
  have hsplit : memcpy b (strlen b) r.toList
      = tempStem zDir nBuf ++ r.toList.take 8 ++ x :: (xs ++ rest) := by
    calc memcpy b (strlen b) r.toList
        = tempStem zDir nBuf ++ r.toList ++ rest := by rw [hj, hrest]
      _ = tempStem zDir nBuf ++ (r.toList.take 8 ++ r.toList.drop 8) ++ rest := by
          rw [List.take_append_drop]
      _ = _ := by rw [hx]; simp
  have h8 : (r.toList.take 8).length = 8 := by simp
  have hname : (tempName zDir nBuf r).length = strlen b + 8 := by
    rw [tempName, List.length_append, List.length_map, h8, hj]
  have hpick := pickChars_append (tempStem zDir nBuf) (r.toList.take 8) (x :: (xs ++ rest))
  rw [h8, ← hj, ← hsplit, ← tempName] at hpick
  have hend : (pickChars 8 (strlen b) (memcpy b (strlen b) r.toList)).set (strlen b + 8) 0
      = tempName zDir nBuf r ++ 0 :: (xs ++ rest) := by
    rw [hpick, ← hname]
    simp
  rw [hend]
  constructor
  · exact ⟨xs ++ rest, by simp⟩
  · rw [← hlen', hsplit, tempName]
    simp

/-- The string that a round leaves in the buffer is the name that it tries. -/
theorem cstr_tempRound (zDir : List UInt8) {nBuf : Nat} {zBuf : List UInt8}
    (r : Vector UInt8 15) (hpass : 18 < nBuf) (hbuf : nBuf ≤ zBuf.length) :
    cstr (tempRound zDir nBuf zBuf r) = tempName zDir nBuf r := by
  obtain ⟨⟨rest, hrest⟩, -⟩ := tempRound_holds zDir r hpass hbuf
  rw [← hrest, List.append_assoc]
  exact cstr_append_zero (zero_notMem_tempName zDir nBuf r) rest

/-! ### The loop of `getTempname` -/

/-- Round `k` is the first one that tries a name nobody has, so that the loop ends there. -/
structure FirstFree (E : TempEnv) (nBuf : Nat) (rnd : Nat → Vector UInt8 15) (k : Nat) :
    Prop where
  taken : ∀ i < k, E.access (tempName E.zDir nBuf (rnd i)) 0 = true
  free : E.access (tempName E.zDir nBuf (rnd k)) 0 = false

/-- The loop ends in the first round whose name is free, with that name in the buffer. -/
theorem tempLoop_free {E : TempEnv} {nBuf : Nat} {rnd : Nat → Vector UInt8 15} {k : Nat}
    (hfree : FirstFree E nBuf rnd k) (hpass : 18 < nBuf) {i n fuel : Nat} {zBuf : List UInt8}
    (hi : i + n = k) (hfuel : n < fuel) (hbuf : nBuf ≤ zBuf.length) :
    ∃ buf, tempLoop E nBuf rnd fuel i zBuf = some (.OK, buf) ∧ buf.length = zBuf.length ∧
      tempName E.zDir nBuf (rnd k) ++ [0] <+: buf := by
  -- on the number of rounds that are left
  induction n generalizing i fuel zBuf with
  | zero =>
    obtain ⟨fuel, rfl⟩ : ∃ m, fuel = m + 1 := ⟨fuel - 1, by omega⟩
    obtain rfl : i = k := by omega
    obtain ⟨hbegin, hlen⟩ := tempRound_holds E.zDir (rnd i) hpass hbuf
    refine ⟨_, ?_, hlen, hbegin⟩
    have hacc := hfree.free
    rw [← cstr_tempRound E.zDir (rnd i) hpass hbuf] at hacc
    rw [tempLoop]
    rw [if_neg (by rw [hacc]; decide)]
  | succ n ih =>
    obtain ⟨fuel, rfl⟩ : ∃ m, fuel = m + 1 := ⟨fuel - 1, by omega⟩
    obtain ⟨-, hlen⟩ := tempRound_holds E.zDir (rnd i) hpass hbuf
    have hacc := hfree.taken i (by omega)
    rw [← cstr_tempRound E.zDir (rnd i) hpass hbuf] at hacc
    rw [tempLoop]
    rw [if_pos hacc]
    obtain ⟨buf, hloop, hlen', hbegin⟩ :=
      ih (i := i + 1) (by omega) (show n < fuel by omega) (hlen.symm ▸ hbuf)
    exact ⟨buf, hloop, hlen'.trans hlen, hbegin⟩

/-- While every name is taken, the loop goes on, whatever the fuel. -/
theorem tempLoop_taken {E : TempEnv} {nBuf : Nat} {rnd : Nat → Vector UInt8 15}
    (htaken : ∀ i, E.access (tempName E.zDir nBuf (rnd i)) 0 = true) (hpass : 18 < nBuf)
    (fuel i : Nat) {zBuf : List UInt8} (hbuf : nBuf ≤ zBuf.length) :
    tempLoop E nBuf rnd fuel i zBuf = none := by
  induction fuel generalizing i zBuf with
  | zero => rfl
  | succ fuel ih =>
    obtain ⟨-, hlen⟩ := tempRound_holds E.zDir (rnd i) hpass hbuf
    have hacc := htaken i
    rw [← cstr_tempRound E.zDir (rnd i) hpass hbuf] at hacc
    rw [tempLoop]
    rw [if_pos hacc]
    exact ih (i + 1) (hlen.symm ▸ hbuf)

/-- **What `getTempname` returns.**  `SQLITE_ERROR` for a directory name that is too long; else
    the first name that is free, once a round tries one, and nothing before that. -/
theorem getTempname_total (E : TempEnv) (rnd : Nat → Vector UInt8 15) {nBuf : Nat}
    {zBuf : List UInt8} (hbuf : nBuf ≤ zBuf.length) :
    (nBuf ≤ strlen E.zDir + 18 →
        ∀ fuel, getTempname E rnd fuel nBuf zBuf = some (.ERROR, zBuf)) ∧
      (strlen E.zDir + 18 < nBuf →
        (∀ k, FirstFree E nBuf rnd k → ∀ fuel, k < fuel → ∃ buf,
          getTempname E rnd fuel nBuf zBuf = some (.OK, buf) ∧ buf.length = zBuf.length ∧
            tempName E.zDir nBuf (rnd k) ++ [0] <+: buf) ∧
        ((∀ i, E.access (tempName E.zDir nBuf (rnd i)) 0 = true) →
          ∀ fuel, getTempname E rnd fuel nBuf zBuf = none)) := by
  have hlen : SQLITE_TEMP_FILE_PREFIX.length = 1 := rfl
  constructor
  · intro hle fuel
    rw [getTempname, if_pos (by omega)]
  · intro hpass
    constructor
    · intro k hfree fuel hfuel
      rw [getTempname, if_neg (by omega)]
      exact tempLoop_free hfree (by omega) (by omega) hfuel hbuf
    · intro htaken fuel
      rw [getTempname, if_neg (by omega)]
      exact tempLoop_taken htaken (by omega) fuel 0 hbuf

/-! ### Names for a file system with 8.3 names -/

/-- What the port needs of a temporary name: the directory, `/`, and a last component of letters
    and digits that begins with the prefix and has at most 8 characters; it is terminated within
    the buffer, and nobody has it. -/
structure TempName (E : TempEnv) (nBuf : Nat) (buf last : List UInt8) : Prop where
  name : cstr buf = cstr E.zDir ++ 47 :: last
  alnum : ∀ b ∈ last, IsAlnum b
  begins : SQLITE_TEMP_FILE_PREFIX <+: last
  short : last.length ≤ 8
  terminated : cstr buf ++ [0] <+: buf.take nBuf
  free : E.access (cstr buf) 0 = false

/-- The characters of a round begin with the one of the first random byte. -/
theorem chars_eq (r : Vector UInt8 15) :
    ∃ cs, (r.toList.take 8).map zChar = zChar r[0] :: cs ∧ cs.length = 7 ∧
      ∀ b ∈ cs, IsAlnum b := by
  obtain ⟨x, xs, hx⟩ : ∃ x xs, r.toList = x :: xs := by
    apply List.exists_cons_of_length_pos
    rw [Vector.length_toList]
    omega
  have hlen : (x :: xs).length = 15 := by rw [← hx, Vector.length_toList]
  have h0 : r[0] = x := by
    have hget : r.toList[0]? = some r[0] := by simp
    rw [hx] at hget
    simpa using hget.symm
  rw [List.length_cons] at hlen
  refine ⟨(xs.take 7).map zChar, ?_, ?_, ?_⟩
  · rw [hx, h0]
    rfl
  · rw [List.length_map, List.length_take]
    omega
  · intro b hb
    obtain ⟨c, -, rfl⟩ := List.mem_map.mp hb
    exact isAlnum_zChar c

/-- **The name of a round.**  It is what the port needs exactly when the directory name is so
    long that the format loses the prefix, and the first random byte puts its character there. -/
theorem tempName_iff {E : TempEnv} {nBuf : Nat} {r : Vector UInt8 15} {buf : List UInt8}
    (hpass : strlen E.zDir + 18 < nBuf) (hbegin : tempName E.zDir nBuf r ++ [0] <+: buf)
    (hfree : E.access (tempName E.zDir nBuf r) 0 = false) :
    (∃ last, TempName E nBuf buf last) ↔
      strlen E.zDir < 2 ^ 30 ∧ strlen E.zDir + 19 = nBuf ∧ r[0].toNat % 62 = 18 := by
  obtain ⟨rest, hrest⟩ := hbegin
  have hcstr : cstr buf = tempName E.zDir nBuf r := by
    rw [← hrest, List.append_assoc]
    exact cstr_append_zero (zero_notMem_tempName _ _ _) rest
  obtain ⟨cs, hcs, hcs7, halnum⟩ := chars_eq r
  have hstem : (tempStem E.zDir nBuf).length
      = min (nBuf - 18) (min (sqlite3Strlen30 E.zDir) (strlen E.zDir) + 2) := by
    rw [tempStem, List.length_take, List.length_append, List.length_take]
    rfl
  have hname : (tempName E.zDir nBuf r).length = (tempStem E.zDir nBuf).length + 8 := by
    rw [tempName, hcs, List.length_append, List.length_cons, hcs7]
  have h30 : sqlite3Strlen30 E.zDir = strlen E.zDir % 2 ^ 30 := rfl
  -- the stem of a directory name that leaves no room for the prefix
  have hcut (hlt : strlen E.zDir < 2 ^ 30) (heq : strlen E.zDir + 19 = nBuf) :
      tempName E.zDir nBuf r = cstr E.zDir ++ 47 :: zChar r[0] :: cs := by
    have hall : (cstr E.zDir).take (sqlite3Strlen30 E.zDir) = cstr E.zDir := by
      apply List.take_of_length_le
      show strlen E.zDir ≤ _
      omega
    have hlen : nBuf - 18 = (cstr E.zDir ++ [47]).length := by
      rw [List.length_append]
      show _ = strlen E.zDir + 1
      omega
    rw [tempName, tempStem, hall, hcs, hlen, SQLITE_TEMP_FILE_PREFIX,
      show cstr E.zDir ++ [47, 115] = (cstr E.zDir ++ [47]) ++ [115] by simp, List.take_left]
    simp
  constructor
  · rintro ⟨last, h⟩
    -- the length of the name tells how the stem was cut
    have hlast := h.begins.length_le
    have hshort := h.short
    have hlen : strlen E.zDir + (last.length + 1) = (tempName E.zDir nBuf r).length := by
      rw [← hcstr, h.name, List.length_append]
      rfl
    rw [hname, hstem, h30] at hlen
    have hone : SQLITE_TEMP_FILE_PREFIX.length = 1 := rfl
    have hlt : strlen E.zDir < 2 ^ 30 := by omega
    have heq : strlen E.zDir + 19 = nBuf := by omega
    refine ⟨hlt, heq, ?_⟩
    have hsame : last = zChar r[0] :: cs := by
      have := h.name
      rw [hcstr, hcut hlt heq] at this
      simpa using this.symm
    obtain ⟨t, ht⟩ := h.begins
    rw [hsame] at ht
    exact (zChar_eq_s _).mp (List.cons.inj ht).1.symm
  · rintro ⟨hlt, heq, hbyte⟩
    rw [hcut hlt heq] at hcstr
    have hlen : strlen buf = strlen E.zDir + 9 := by
      rw [strlen, hcstr, List.length_append, List.length_cons, List.length_cons, hcs7]
      rfl
    refine ⟨zChar r[0] :: cs, hcstr, ?_, ?_, ?_, ?_, ?_⟩
    · intro b hb
      rcases List.mem_cons.mp hb with rfl | hb
      · exact isAlnum_zChar _
      · exact halnum b hb
    · rw [(zChar_eq_s _).mpr hbyte]
      exact List.prefix_append [115] cs
    · rw [List.length_cons, hcs7]
    · have hle : (cstr buf ++ [0]).length ≤ nBuf := by
        rw [List.length_append]
        show strlen buf + 1 ≤ nBuf
        omega
      rw [List.prefix_take_iff]
      refine ⟨⟨rest, ?_⟩, hle⟩
      rw [hcstr, ← hcut hlt heq]
      exact hrest
    · rw [hcstr, ← hcut hlt heq]
      exact hfree

/-! ### The names of a pager -/

/-- `MAX_PATHNAME`, which is `mxPathname` of the VFS and bounds every name. -/
def MAX_PATHNAME : Nat := 512

/-- `getcwd(buf, size)`, in the directory `cwd`, if there is one; none when it does not fit. -/
def getcwd (cwd : Option (List UInt8)) (buf : List UInt8) (size : Nat) : Option (List UInt8) :=
  match cwd with
  | none => none
  | some d => if strlen d + 1 ≤ size then some (memcpy buf 0 (strcpy d)) else none

/-- `unixFullPathname`: the pathname itself when it begins with `/`, or behind the working
    directory. -/
def unixFullPathname (cwd : Option (List UInt8)) (zPath : List UInt8) (nOut : Nat)
    (zOut : List UInt8) : NameRc × List UInt8 :=
  let zOut := zOut.set (nOut - 1) 0
  if zPath.headD 0 = 47 then (.OK, sqlite3_snprintf nOut zOut [.str zPath])
  else match getcwd cwd zOut (nOut - 1) with
    | none => (.CANTOPEN, zOut)
    | some zOut =>
      let nCwd := strlen zOut
      (.OK, zOut.take nCwd ++
        sqlite3_snprintf (nOut - nCwd) (zOut.drop nCwd) [.text [47], .str zPath])

/-- What stands in front of the names in the memory of a pager. -/
structure PagerSizes where
  /-- `sizeof(Pager)` -/
  pager : Nat
  pcacheSize : Nat
  szOsFile : Nat
  journalFileSize : Nat

/-- The memory of a pager, with the places of the names in it. -/
structure Pager where
  block : List UInt8
  zFilename : Nat
  zJournal : Option Nat
  deriving DecidableEq, Repr

/-- `":memory:"`, the name of a database that has no file -/
def memoryName : List UInt8 := [58, 109, 101, 109, 111, 114, 121, 58]

/-- The first part of `sqlite3PagerOpen`: `zPathname`, in the memory that `sqlite3Malloc` gave. -/
def pagerPathname (cwd : Option (List UInt8))
    (sqlite3Malloc : Option (Vector UInt8 ((MAX_PATHNAME + 1) * 2))) (zFilename : List UInt8) :
    Except NameRc (List UInt8) :=
  match sqlite3Malloc with
  | none => .error .NOMEM
  | some mem =>
    let zPathname := mem.toList.set 0 0
    let (rc, zPathname) :=
      if strEq zFilename memoryName then (.OK, zPathname)
      else unixFullPathname cwd zFilename (MAX_PATHNAME + 1) zPathname
    let nPathname := sqlite3Strlen30 zPathname
    if rc = .OK ∧ MAX_PATHNAME < nPathname + 8 then .error .CANTOPEN
    else if rc ≠ .OK then .error rc
    else .ok zPathname

/-- The second part of `sqlite3PagerOpen`: the memory of the pager with the names in it. -/
def pagerBlock (S : PagerSizes) (zPathname : Option (List UInt8)) : Pager :=
  let nPathname := (zPathname.map sqlite3Strlen30).getD 0
  let block := List.replicate (S.pager + S.pcacheSize + S.szOsFile + S.journalFileSize * 2 +
    (nPathname + 1) + (nPathname + 8 + 1)) 0
  let zFilename := S.pager + S.pcacheSize + S.szOsFile + S.journalFileSize + S.journalFileSize
  match zPathname with
  | none => ⟨block, zFilename, none⟩
  | some zPathname =>
    let zJournal := zFilename + nPathname + 1
    let block := memcpy block zFilename (zPathname.take nPathname)
    let block := memcpy block zJournal (zPathname.take nPathname)
    let block := memcpy block (zJournal + nPathname) [106, 114]
    ⟨block, zFilename, some zJournal⟩

/-- `sqlite3PagerOpen`, to where the names are in the memory of the pager.  `mallocZero` says
    whether `sqlite3MallocZero` gives that memory. -/
def sqlite3PagerOpen (S : PagerSizes) (cwd : Option (List UInt8))
    (sqlite3Malloc : Option (Vector UInt8 ((MAX_PATHNAME + 1) * 2))) (mallocZero : Bool)
    (zFilename : Option (List UInt8)) : Except NameRc Pager :=
  match zFilename.filter fun z => z.headD 0 ≠ 0 with
  | none => if mallocZero then .ok (pagerBlock S none) else .error .NOMEM
  | some z =>
    match pagerPathname cwd sqlite3Malloc z with
    | .error rc => .error rc
    | .ok zPathname =>
      if mallocZero then .ok (pagerBlock S (some zPathname)) else .error .NOMEM

/-- The full form of a pathname, without regard to the size of the buffer. -/
def fullPathname (cwd : Option (List UInt8)) (zPath : List UInt8) : List UInt8 :=
  let z := (cstr zPath).take (sqlite3Strlen30 zPath)
  if zPath.headD 0 = 47 then z else cstr (cwd.getD []) ++ 47 :: z

/-- The working directory stands in the buffer, with its terminator, when it fits. -/
theorem getcwd_spec {cwd : Option (List UInt8)} {buf buf' : List UInt8} {size : Nat}
    (hcall : getcwd cwd buf size = some buf') (hroom : size ≤ buf.length) :
    ∃ d, cwd = some d ∧ strlen d + 1 ≤ size ∧ buf'.length = buf.length ∧
      cstr buf' = cstr d := by
  unfold getcwd at hcall
  split at hcall
  · exact absurd hcall (by simp)
  rename_i d
  split at hcall
  · rename_i hfit
    obtain rfl := Option.some.inj hcall
    refine ⟨d, rfl, hfit, ?_, ?_⟩
    · apply length_memcpy
      rw [strcpy, List.length_append]
      show 0 + (strlen d + 1) ≤ _
      omega
    · rw [memcpy, strcpy]
      simp only [List.take_zero, List.nil_append, List.append_assoc, List.singleton_append]
      exact cstr_append_zero (zero_notMem_cstr d) _
  · exact absurd hcall (by simp)

/-- A full pathname that leaves room in the buffer is not cut, so that it is the pathname asked
    for. -/
theorem unixFullPathname_spec {cwd : Option (List UInt8)} {zPath zOut zOut' : List UInt8}
    {nOut : Nat} (hpos : 0 < nOut) (hroom : nOut ≤ zOut.length)
    (hcall : unixFullPathname cwd zPath nOut zOut = (.OK, zOut'))
    (hshort : strlen zOut' + 1 < nOut) : cstr zOut' = fullPathname cwd zPath := by
  have hz : 0 ∉ (cstr zPath).take (sqlite3Strlen30 zPath) :=
    fun h => zero_notMem_cstr _ (List.mem_of_mem_take h)
  unfold unixFullPathname at hcall
  dsimp only at hcall
  split at hcall
  · -- an absolute path
    rename_i habs
    obtain rfl := (Prod.mk.inj hcall).2
    have hout : output [.str zPath] = (cstr zPath).take (sqlite3Strlen30 zPath) := by
      simp [output, Conversion.bytes]
    have hroom' : nOut ≤ (zOut.set (nOut - 1) 0).length := by
      rw [List.length_set]
      exact hroom
    have hstr := cstr_snprintf hpos hroom' (hout ▸ hz)
    rw [strlen, hstr, List.length_take] at hshort
    rw [hstr, List.take_of_length_le (by omega), hout, fullPathname, if_pos habs]
  · rename_i hrel
    split at hcall
    · exact absurd (Prod.mk.inj hcall).1 (by decide)
    rename_i zCwd hcwd
    obtain rfl := (Prod.mk.inj hcall).2
    -- the working directory, in front of the path
    obtain ⟨d, hd, hfit, hlen, hstrd⟩ := getcwd_spec hcwd (by rw [List.length_set]; omega)
    rw [List.length_set] at hlen
    have hn : strlen zCwd = strlen d := by rw [strlen, hstrd, strlen]
    have hout : output [.text [47], .str zPath]
        = 47 :: (cstr zPath).take (sqlite3Strlen30 zPath) := by
      simp [output, Conversion.bytes]
    have hzero : 0 ∉ output [.text [47], .str zPath] := by
      rw [hout]
      intro h
      rcases List.mem_cons.mp h with h | h
      · exact absurd h (by decide)
      · exact hz h
    have hroom' : nOut - strlen zCwd ≤ (zCwd.drop (strlen zCwd)).length := by
      rw [List.length_drop]
      omega
    have hstr := cstr_snprintf (by omega) hroom' hzero
    have hall : cstr (zCwd.take (strlen zCwd) ++ sqlite3_snprintf (nOut - strlen zCwd)
        (zCwd.drop (strlen zCwd)) [.text [47], .str zPath])
        = cstr d ++ (output [.text [47], .str zPath]).take (nOut - strlen zCwd - 1) := by
      rw [take_strlen, hstrd, cstr_append (zero_notMem_cstr d), hstr]
    rw [strlen, hall, List.length_append, List.length_take] at hshort
    rw [hall, List.take_of_length_le, hout, fullPathname, if_neg hrel, hd]
    · rfl
    · rw [strlen, hstrd]
      rw [hn, strlen] at hshort
      omega

/-- The full pathname is written within the buffer, whose length stays. -/
theorem length_unixFullPathname (cwd : Option (List UInt8)) (zPath : List UInt8)
    {zOut : List UInt8} {nOut : Nat} (hpos : 0 < nOut) (hroom : nOut ≤ zOut.length) :
    (unixFullPathname cwd zPath nOut zOut).2.length = zOut.length := by
  have hset : (zOut.set (nOut - 1) 0).length = zOut.length := List.length_set
  unfold unixFullPathname
  dsimp only
  split
  · rw [(snprintf_holds _ hpos (by omega)).2, hset]
  split
  · exact hset
  · rename_i zCwd hcwd
    obtain ⟨d, -, hfit, hlen, hstrd⟩ := getcwd_spec hcwd (by omega)
    have hn : strlen zCwd = strlen d := by rw [strlen, hstrd, strlen]
    rw [List.length_append, (snprintf_holds _ (by omega) (by rw [List.length_drop]; omega)).2,
      List.length_take, List.length_drop]
    omega

/-- What `sqlite3PagerOpen` accepts as the pathname of a database is not cut. -/
theorem pagerPathname_spec {cwd : Option (List UInt8)}
    {sqlite3Malloc : Option (Vector UInt8 ((MAX_PATHNAME + 1) * 2))}
    {zFilename zPathname : List UInt8}
    (hok : pagerPathname cwd sqlite3Malloc zFilename = .ok zPathname) :
    zPathname.take (sqlite3Strlen30 zPathname) = cstr zPathname ∧
      cstr zPathname =
        if strEq zFilename memoryName then [] else fullPathname cwd zFilename := by
  unfold pagerPathname at hok
  split at hok
  · exact absurd hok (by simp)
  rename_i mem
  dsimp only at hok
  have hmem : (mem.toList.set 0 0).length = 1026 := by
    rw [List.length_set, Vector.length_toList]
    rfl
  -- a name in a buffer of this size is counted whole
  have hcount {z : List UInt8} (hlen : z.length = 1026) :
      sqlite3Strlen30 z = strlen z ∧ z.take (sqlite3Strlen30 z) = cstr z := by
    have hle := strlen_le_length z
    have heq : sqlite3Strlen30 z = strlen z := Nat.mod_eq_of_lt (by omega)
    exact ⟨heq, heq ▸ take_strlen z⟩
  generalize hnamed : (if strEq zFilename memoryName then (NameRc.OK, mem.toList.set 0 0)
    else unixFullPathname cwd zFilename (MAX_PATHNAME + 1) (mem.toList.set 0 0)) = named at hok
  split at hok
  · exact absurd hok (by simp)
  rename_i hlong
  split at hok
  · exact absurd hok (by simp)
  rename_i hrc
  obtain rfl := Except.ok.inj hok
  rw [ne_eq, not_not] at hrc
  have hlong : ¬ MAX_PATHNAME < sqlite3Strlen30 named.2 + 8 := fun h => hlong ⟨hrc, h⟩
  split at hnamed
  · -- a database in memory
    rename_i hmemory
    subst hnamed
    exact ⟨(hcount hmem).2, (cstr_set_zero _).trans (if_pos hmemory).symm⟩
  · rename_i hfile
    subst hnamed
    have hroom : MAX_PATHNAME + 1 ≤ (mem.toList.set 0 0).length := by
      rw [hmem]
      decide
    have hlen := length_unixFullPathname cwd zFilename (by omega) hroom
    rw [hmem] at hlen
    obtain ⟨heq, htake⟩ := hcount hlen
    rw [heq] at hlong
    refine ⟨htake, Eq.trans ?_ (if_neg hfile).symm⟩
    exact unixFullPathname_spec (by omega) hroom (Prod.ext hrc rfl) (by omega)

/-- **The names in the memory of a pager.**  The journal's is the database's with two more
    characters, and both are terminated inside the memory. -/
theorem pagerBlock_names (S : PagerSizes) {zPathname : List UInt8}
    (hname : zPathname.take (sqlite3Strlen30 zPathname) = cstr zPathname) :
    ∃ o, (pagerBlock S (some zPathname)).zJournal = some o ∧
      cstr zPathname ++ [0]
        <+: (pagerBlock S (some zPathname)).block.drop (pagerBlock S (some zPathname)).zFilename ∧
      cstr zPathname ++ [106, 114] ++ [0] <+: (pagerBlock S (some zPathname)).block.drop o := by
  set n := sqlite3Strlen30 zPathname with hn
  set a := S.pager + S.pcacheSize + S.szOsFile + S.journalFileSize + S.journalFileSize with ha
  have hlen : (cstr zPathname).length = n := by
    have hle : (cstr zPathname).length ≤ n := by
      rw [← hname]
      exact List.length_take_le _ _
    have hge : n ≤ strlen zPathname := Nat.mod_le _ _
    exact le_antisymm hle hge
  -- the memory, cut where the names will begin and end
  have hzeros : List.replicate (S.pager + S.pcacheSize + S.szOsFile + S.journalFileSize * 2 +
      (n + 1) + (n + 8 + 1)) (0 : UInt8)
      = List.replicate a 0 ++ (List.replicate n 0 ++ ([0] ++ (List.replicate n 0 ++
          (List.replicate 2 0 ++ List.replicate 7 0)))) := by
    rw [show [(0 : UInt8)] = List.replicate 1 0 from rfl]
    simp only [List.replicate_append_replicate]
    congr 1
    omega
  have hn0 : (List.replicate n (0 : UInt8)).length = (cstr zPathname).length := by simp [hlen]
  have hjournal : (List.replicate a (0 : UInt8) ++ cstr zPathname ++ [0]).length = a + n + 1 := by
    simp [hlen]
    omega
  have hblock : (pagerBlock S (some zPathname)).block
      = List.replicate a 0 ++ (cstr zPathname ++ ([0] ++ (cstr zPathname ++ ([106, 114] ++
          List.replicate 7 0)))) := by
    have hend : (List.replicate a (0 : UInt8) ++ cstr zPathname ++ [0] ++ cstr zPathname).length
        = a + n + 1 + n := by
      simp [hlen]
      omega
    -- the three copies, one after the other
    have hfirst := memcpy_append (List.length_replicate (a := (0 : UInt8)) (n := a)) hn0
      ([0] ++ (List.replicate n 0 ++ (List.replicate 2 0 ++ List.replicate 7 0)))
    have hsecond := memcpy_append hjournal hn0 (List.replicate 2 0 ++ List.replicate 7 0)
    have hthird := memcpy_append (q := List.replicate 2 0) (d := [106, 114]) hend rfl
      (List.replicate 7 0)
    simp only [List.append_assoc] at hsecond hthird
    unfold pagerBlock
    simp only [Option.map_some, Option.getD_some, hname, ← hn, ← ha]
    rw [hzeros, hfirst, hsecond, hthird]
  have hfile : (pagerBlock S (some zPathname)).zFilename = a := rfl
  refine ⟨a + n + 1, rfl, ?_, ?_⟩
  · rw [hblock, hfile, List.drop_left' (List.length_replicate)]
    exact ⟨cstr zPathname ++ ([106, 114] ++ List.replicate 7 0), by simp⟩
  · rw [hblock]
    have hskip : List.replicate a (0 : UInt8) ++ (cstr zPathname ++ ([0] ++ (cstr zPathname ++
        ([106, 114] ++ List.replicate 7 0))))
        = (List.replicate a 0 ++ cstr zPathname ++ [0]) ++ (cstr zPathname ++ ([106, 114] ++
          List.replicate 7 0)) := by
      simp only [List.append_assoc]
    rw [hskip, List.drop_left' hjournal]
    exact ⟨List.replicate 6 0, by simp [List.replicate]⟩

/-! ### Journal names -/

/-- The last component of a pathname, behind its last slash. -/
def lastComponent (path : List UInt8) : List UInt8 := path.rtakeWhile (· ≠ 47)

/-- A name of 1 to 8 characters, a dot, and 1 to `n` more. -/
def DosName (n : Nat) (name : List UInt8) : Prop :=
  ∃ stem ext, name = stem ++ 46 :: ext ∧ 46 ∉ stem ∧ 46 ∉ ext ∧
    1 ≤ stem.length ∧ stem.length ≤ 8 ∧ 1 ≤ ext.length ∧ ext.length ≤ n

/-- Characters other than `/` lengthen the last component, as a suffix to the pathname does. -/
theorem lastComponent_append {s : List UInt8} (h : 47 ∉ s) (path : List UInt8) :
    lastComponent (path ++ s) = lastComponent path ++ s := by
  induction s using List.reverseRecOn with
  | nil => simp
  | append_singleton s c ih =>
    have hc : c ≠ 47 := fun h0 => h (by simp [h0])
    have hs : 47 ∉ s := fun h' => h (List.mem_append_left _ h')
    rw [← List.append_assoc, lastComponent, List.rtakeWhile_concat_pos _ _ _ (by simpa using hc)]
    change lastComponent (path ++ s) ++ [c] = _
    rw [ih hs, List.append_assoc]

/-- The last component is what stands behind the last `/`, whatever the directory. -/
theorem lastComponent_slash (d path : List UInt8) :
    lastComponent (d ++ 47 :: path) = lastComponent path := by
  induction path using List.reverseRecOn with
  | nil => simp [lastComponent]
  | append_singleton path c ih =>
    rw [lastComponent, ← List.cons_append, ← List.append_assoc, List.rtakeWhile_concat]
    change _ = List.rtakeWhile _ (path ++ [c])
    rw [List.rtakeWhile_concat]
    change (if _ then lastComponent (d ++ 47 :: path) ++ [c] else []) = _
    rw [ih]
    rfl

/-- An extension of at most `n` characters can take two more, those that the port appends. -/
theorem DosName.jr {n : Nat} {name : List UInt8} (h : DosName n name) :
    DosName (n + 2) (name ++ [106, 114]) := by
  obtain ⟨stem, ext, rfl, hstem, hext, h1, h8, he, hn⟩ := h
  refine ⟨stem, ext ++ [106, 114], by simp, hstem, ?_, h1, h8, ?_, ?_⟩
  · intro h
    rcases List.mem_append.mp h with h | h
    · exact hext h
    · exact absurd h (by decide)
  · rw [List.length_append]
    omega
  · rw [List.length_append]
    show ext.length + 2 ≤ n + 2
    omega

/-- What the port needs of a journal's name: it is the database's full pathname, which ends with
    the component it was opened by, followed by `jr`; it is terminated inside the memory of the
    pager, and an 8.1 name gives an 8.3 name. -/
structure JournalName (cwd : Option (List UInt8)) (zFilename : List UInt8) (P : Pager)
    (o : Nat) : Prop where
  database : cstr (P.block.drop P.zFilename)
    = if strEq zFilename memoryName then [] else fullPathname cwd zFilename
  name : cstr (P.block.drop o) = cstr (P.block.drop P.zFilename) ++ [106, 114]
  terminated : cstr (P.block.drop o) ++ [0] <+: P.block.drop o
  component : strEq zFilename memoryName = false → strlen zFilename < 2 ^ 30 →
    lastComponent (cstr (P.block.drop P.zFilename)) = lastComponent (cstr zFilename)
  dos : DosName 1 (lastComponent (cstr (P.block.drop P.zFilename))) →
    DosName 3 (lastComponent (cstr (P.block.drop o)))

/-- A name that is not counted modulo `2 ^ 30` keeps its last component in the full pathname. -/
theorem lastComponent_fullPathname (cwd : Option (List UInt8)) {zPath : List UInt8}
    (hlt : strlen zPath < 2 ^ 30) :
    lastComponent (fullPathname cwd zPath) = lastComponent (cstr zPath) := by
  have hall : (cstr zPath).take (sqlite3Strlen30 zPath) = cstr zPath := by
    apply List.take_of_length_le
    show strlen zPath ≤ strlen zPath % 2 ^ 30
    omega
  unfold fullPathname
  dsimp only
  rw [hall]
  split
  · rfl
  · exact lastComponent_slash _ _

/-- **The journal's name.**  Every database that `sqlite3PagerOpen` accepts gets one, the pathname
    with its suffix. -/
theorem pagerOpen_journal {S : PagerSizes} {cwd : Option (List UInt8)}
    {sqlite3Malloc : Option (Vector UInt8 ((MAX_PATHNAME + 1) * 2))} {mallocZero : Bool}
    {zFilename : List UInt8} {P : Pager} (hnamed : zFilename.headD 0 ≠ 0)
    (hok : sqlite3PagerOpen S cwd sqlite3Malloc mallocZero (some zFilename) = .ok P) :
    ∃ o, P.zJournal = some o ∧ JournalName cwd zFilename P o := by
  have hfilter : (some zFilename).filter (fun z => z.headD 0 ≠ 0) = some zFilename := by
    rw [Option.filter_some, if_pos (by simpa using hnamed)]
  rw [sqlite3PagerOpen, hfilter] at hok
  dsimp only at hok
  split at hok
  · exact absurd hok (by simp)
  rename_i zPathname hpath
  split at hok
  · obtain rfl := Except.ok.inj hok
    obtain ⟨htake, hfull⟩ := pagerPathname_spec hpath
    obtain ⟨o, ho, ⟨rest, hfile⟩, ⟨rest', hjournal⟩⟩ := pagerBlock_names S htake
    have hdb : cstr ((pagerBlock S (some zPathname)).block.drop
        (pagerBlock S (some zPathname)).zFilename) = cstr zPathname := by
      rw [← hfile, List.append_assoc]
      exact cstr_append_zero (zero_notMem_cstr _) rest
    have hzero : 0 ∉ cstr zPathname ++ [106, 114] := by
      intro h
      rcases List.mem_append.mp h with h | h
      · exact zero_notMem_cstr _ h
      · exact absurd h (by decide)
    have hjr : cstr ((pagerBlock S (some zPathname)).block.drop o)
        = cstr zPathname ++ [106, 114] := by
      rw [← hjournal, List.append_assoc]
      exact cstr_append_zero hzero rest'
    refine ⟨o, ho, hdb.trans hfull, ?_, ?_, ?_, ?_⟩
    · rw [hjr, hdb]
    · rw [hjr]
      exact ⟨rest', hjournal⟩
    · intro hfile hlt
      rw [hdb, hfull, hfile, if_neg Bool.false_ne_true, lastComponent_fullPathname cwd hlt]
    · intro hdos
      rw [hjr, lastComponent_append (by decide)]
      rw [hdb] at hdos
      exact hdos.jr
  · exact absurd hok (by simp)

/-! ### Both names -/

/-- **File names.**  The name that `getTempname` returns is one for an 8.3 file system exactly
    when the directory name is 19 bytes shorter than the buffer, so that the format loses its
    prefix, and the first random byte happens to put the prefix there; with any other directory
    the last component has nine characters.  The journal of a database always gets its name. -/
theorem file_names (E : TempEnv) (rnd : Nat → Vector UInt8 15) {nBuf : Nat} {zBuf : List UInt8}
    {k : Nat} (hbuf : nBuf ≤ zBuf.length) (hpass : strlen E.zDir + 18 < nBuf)
    (hfree : FirstFree E nBuf rnd k) :
    (∀ fuel, k < fuel → ∃ buf, getTempname E rnd fuel nBuf zBuf = some (.OK, buf) ∧
      ((∃ last, TempName E nBuf buf last) ↔ strlen E.zDir < 2 ^ 30 ∧ strlen E.zDir + 19 = nBuf ∧
        (rnd k)[0].toNat % 62 = 18)) ∧
    (∀ S cwd sqlite3Malloc mallocZero zFilename P, List.headD zFilename 0 ≠ 0 →
      sqlite3PagerOpen S cwd sqlite3Malloc mallocZero (some zFilename) = .ok P →
        ∃ o, P.zJournal = some o ∧ JournalName cwd zFilename P o) := by
  constructor
  · intro fuel hfuel
    obtain ⟨buf, hcall, -, hbegin⟩ :=
      ((getTempname_total E rnd hbuf).2 hpass).1 k hfree fuel hfuel
    exact ⟨buf, hcall, tempName_iff hpass hbegin hfree.free⟩
  · intro S cwd sqlite3Malloc mallocZero zFilename P hnamed hok
    exact pagerOpen_journal hnamed hok

/-- A system whose only directory for temporary files is the current one, and without files. -/
def emptyTemp : TempEnv :=
  ⟨none, none, fun z => if z = [46] then some true else none, fun _ mode => mode = 7⟩

/-- The first name is free, since nothing is there. -/
theorem emptyTemp_free (rnd : Nat → Vector UInt8 15) : FirstFree emptyTemp 513 rnd 0 :=
  ⟨fun _ h => absurd h (Nat.not_lt_zero _), rfl⟩

/-- Nine characters, with random bytes that are all zero: `./saaaaaaaa`. -/
theorem file_names_zero :
    (∀ fuel, 0 < fuel → ∃ buf,
      getTempname emptyTemp (fun _ => .replicate 15 0) fuel 513 (List.replicate 513 0)
        = some (.OK, buf) ∧
      ((∃ last, TempName emptyTemp 513 buf last) ↔ strlen emptyTemp.zDir < 2 ^ 30 ∧
        strlen emptyTemp.zDir + 19 = 513 ∧
          ((fun _ => .replicate 15 0 : Nat → Vector UInt8 15) 0)[0].toNat % 62 = 18)) ∧
    (∀ S cwd sqlite3Malloc mallocZero zFilename P, List.headD zFilename 0 ≠ 0 →
      sqlite3PagerOpen S cwd sqlite3Malloc mallocZero (some zFilename) = .ok P →
        ∃ o, P.zJournal = some o ∧ JournalName cwd zFilename P o) :=
  file_names emptyTemp (fun _ => .replicate 15 0) (by rw [List.length_replicate]) (by decide)
    (emptyTemp_free _)

/-- **`./saaaaaaaa` is too long.**  `getTempname` returns it, and it is no name for an 8.3 file
    system. -/
theorem temp_name_too_long :
    ∃ buf, getTempname emptyTemp (fun _ => .replicate 15 0) 1 513 (List.replicate 513 0)
        = some (.OK, buf) ∧
      cstr buf = [46, 47, 115, 97, 97, 97, 97, 97, 97, 97, 97] ∧
      ¬ ∃ last, TempName emptyTemp 513 buf last := by
  have hpass : strlen emptyTemp.zDir + 18 < 513 := by decide
  have hbuf : 513 ≤ (List.replicate 513 (0 : UInt8)).length := by rw [List.length_replicate]
  obtain ⟨buf, hcall, -, ⟨rest, hrest⟩⟩ :=
    ((getTempname_total emptyTemp (fun _ => .replicate 15 0) hbuf).2 hpass).1 0 (emptyTemp_free _)
      1 Nat.one_pos
  have hname : tempName emptyTemp.zDir 513 (.replicate 15 0)
      = [46, 47, 115, 97, 97, 97, 97, 97, 97, 97, 97] := by decide
  refine ⟨buf, hcall, ?_, ?_⟩
  · rw [← hrest, List.append_assoc, hname]
    exact cstr_append_zero (by decide) rest
  · rw [tempName_iff hpass ⟨rest, hrest⟩ rfl]
    decide

end Ecos.Sqlite
