import Ecos.Fat.Memory

namespace Ecos.Fat

/-!
# Walking a path

What a path lookup is for, and when `fatfs_find` does it.

* `DirTree` — the directories of a disk, by their first clusters;
* `Spot`, `DirTree.step`, `DirTree.walk` — where a path leads: the walk of its components through
  the tree, one after the other;
* `Agrees` — the node cache agrees with the directories;
* `DirTree.lookups`, `Smooth` — the components that the walk looks up in directories, and which of
  them the code gets right;
* `findEntry_none`, `findEntry_some`, `findEntry_negative` — one component whose length fits in a
  `char`, and one whose length is negative there;
* `findLoop_walk`, `findLoop_rough`, `findLoop_stuck` — the loop of `fatfs_find`;
* `path_walk` — a whole path.
-/

/-! ### The walk -/

/-- Where a component leads: to a directory, by its first cluster; or to a file, by the directory
    it is in and its name in lower case. -/
inductive Spot
  | dir (cluster : BitVec 32)
  | file (parent : BitVec 32) (name : List UInt8)
  deriving DecidableEq, Repr

/-- What an entry denotes: a directory by its first cluster, a file by its place and name. -/
def DirEntry.spot (e : DirEntry) : Spot :=
  if e.isDir then .dir e.cluster else .file e.parentCluster (e.filename.map toLower)

/-- The first entry with a name, in the order of the directory and without regard to case. -/
def findName (entries : List DirEntry) (name : List UInt8) : Option DirEntry :=
  entries.find? fun e => e.named name

/-- The directories of a disk as an abstract tree: names lead from one directory to the next,
    whatever the cache holds. -/
structure DirTree where
  /-- The first cluster of the root directory. -/
  root : BitVec 32
  /-- The entries of the directory with a first cluster. -/
  entries : BitVec 32 → List DirEntry
  place : ∀ c, ∀ e ∈ entries c, e.parentCluster = c
  /-- `filename` is an array of 13 characters, with the terminator. -/
  short : ∀ c, ∀ e ∈ entries c, e.filename.length ≤ 12
  /-- The entry `"."` denotes the directory itself. -/
  self : ∀ c e, findName (entries c) dot = some e → e.isDir = true ∧ e.cluster = c
  /-- The entry `".."` denotes the root directory, by the cluster 0, or one with an entry `"."`. -/
  parent : ∀ c e, findName (entries c) dotdot = some e → e.cluster ≠ 0 →
    e.isDir = true ∧ (findName (entries e.cluster) dot).isSome = true

namespace DirTree

variable (T : DirTree)

/-- One component, in the directory `c`: itself for `"."`, its parent for `".."`, or the entry of
    that name. -/
def step (c : BitVec 32) (name : List UInt8) : Option Spot :=
  if name = [] ∨ name = dot then some (.dir c)
  else match findName (T.entries c) name with
    | none => none
    | some e =>
      if name = dotdot then some (.dir (if e.cluster = 0 then T.root else e.cluster))
      else some e.spot

/-- How a walk ends, with what its caller is told. -/
inductive Outcome
  /-- A component was to be looked up in a file. -/
  | notDir
  /-- The directory has no entry with the name; was it the last component? -/
  | noEntry (dir : BitVec 32) (name : List UInt8) (last : Bool)
  | found (s : Spot)
  deriving DecidableEq, Repr

/-- The walk of components, from left to right, to a file or a directory. -/
def walk : Spot → List (List UInt8) → Outcome
  | s, [] => .found s
  | .file .., _ :: _ => .notDir
  | .dir c, name :: rest =>
    match T.step c name with
    | none => .noEntry c name rest.isEmpty
    | some s => walk s rest

/-- The components that the walk looks up, each with the directory in which it does. -/
def lookups : Spot → List (List UInt8) → List (BitVec 32 × List UInt8)
  | _, [] => []
  | .file .., _ :: _ => []
  | .dir c, name :: rest =>
    (c, name) :: match T.step c name with
      | none => []
      | some s => lookups s rest

/-- The name and the directory of the node that a component needs; the directory itself and the
    root directory have one already. -/
def needed (c : BitVec 32) (name : List UInt8) : Option (List UInt8 × BitVec 32) :=
  if name = [] ∨ name = dot then none
  else match findName (T.entries c) name with
    | none => none
    | some e =>
      if name = dotdot then if e.cluster = 0 then none else some (dot, e.cluster)
      else some (name, c)

end DirTree

/-! ### The cache and the directories -/

variable {Disk Cache : Type} (D : DirSupport Disk) (N : NodeCache Cache)

/-- What is known of `fatfs_node_alloc` besides `CacheLaws`: it needs a node without references,
    or a free one, so that its success is decided by the reference counts. -/
structure AllocLaws (N : NodeCache Cache) : Prop where
  alloc_none : ∀ {c c' e e'}, N.refs c = N.refs c' → N.alloc c e = none → N.alloc c' e' = none

/-- No node can be allocated: all are in use. -/
def NodeCache.full (c : Cache) : Prop := ∃ e, N.alloc c e = none

/-- The directories of the disk are those of the tree, and reading them succeeds. -/
def Reads (d : Disk) (T : DirTree) : Prop :=
  ∀ e : DirEntry, e.isDir = true →
    (D.readDir d e).1 = T.entries e.cluster ∧ (D.readDir d e).2.1 = .EEOF

/-- The node cache agrees with the directories: the root directory has a node, which is held, and
    any other node has the name and the place of an entry, and denotes what the entry does.  No
    node has the name `".."`. -/
structure Agrees (T : DirTree) (v : Volume Disk Cache) : Prop where
  root : ∃ x, N.node v.cache v.root = some x ∧ 0 < x.refcnt ∧ x.dentry.filename = [] ∧
    x.dentry.spot = .dir T.root
  node : ∀ n x, N.node v.cache n = some x → n ≠ v.root → x.dentry.filename ≠ dotdot ∧
    ∃ e, findName (T.entries x.dentry.parentCluster) x.dentry.filename = some e ∧
      e.spot = x.dentry.spot

/-- Is there a node with the name and the parent cluster? Then no other need be allocated. -/
def Volume.hasNode (v : Volume Disk Cache) (key : List UInt8 × BitVec 32) : Prop :=
  ∃ n x, N.node v.cache n = some x ∧ x.dentry.named key.1 = true ∧ x.dentry.parentCluster = key.2

/-- The node that a component needs is cached or can be allocated, so that the lookup need not fail
    for lack of one. -/
def Available (T : DirTree) (v : Volume Disk Cache) (c : BitVec 32) (name : List UInt8) : Prop :=
  N.full v.cache → ∀ key, T.needed c name = some key → v.hasNode N key

/-- The number of lengths that a `char` holds, which depends on its sign. -/
def DirSupport.charBound (D : DirSupport Disk) : Nat := if D.charSigned then 2 ^ 7 else 2 ^ 8

/-- A component whose length fits in a `char`, and whose node is available. -/
def Smooth (T : DirTree) (v : Volume Disk Cache) (p : BitVec 32 × List UInt8) : Prop :=
  p.2.length < D.charBound ∧ Available N T v p.1 p.2

/-- The result of a lookup is the outcome of the walk, error by error and node by node. -/
inductive Meets (v : Volume Disk Cache) (ds : DirSearch) : Err → DirTree.Outcome → Prop
  | notDir : Meets v ds .ENOTDIR .notDir
  | noEntry {x : FatNode} {c : BitVec 32} (hx : N.node v.cache ds.dir = some x)
      (hspot : x.dentry.spot = .dir c) (hlen : ds.namelen = ds.component.length) :
      Meets v ds .ENOENT (.noEntry c ds.component ds.last)
  | found {n : Nat} {x : FatNode} (hn : ds.node = some n) (hx : N.node v.cache n = some x) :
      Meets v ds .ENOERR (.found x.dentry.spot)

variable {D} {N} {T : DirTree} {v v' : Volume Disk Cache} {ds ds' : DirSearch} {err : Err}
  {e : DirEntry} {fuel n : Nat} {c : Cache} {k : BitVec 32} {x : FatNode} {name : List UInt8}
  {p : BitVec 32 × List UInt8}

/-! ### Names and components -/

/-- The first component of a path, up to the first separator. -/
def DirSearch.element (ds : DirSearch) : List UInt8 := ds.path.takeWhile (· ≠ 47)

/-- The components of a path: the first one, and those of the rest. -/
theorem splitOn_slash (path : List UInt8) :
    path.splitOn 47 = path.takeWhile (· ≠ 47) ::
      match path.dropWhile (· ≠ 47) with
      | [] => []
      | _ :: rest => rest.splitOn 47 := by
  induction path with
  | nil => rfl
  | cons b path ih =>
    by_cases hb : b = 47
    · subst hb
      simp [List.splitOn, List.splitOnP_cons_eq_if_modifyHead]
    · have hsplit : (b :: path).splitOn 47 = (path.splitOn 47).modifyHead (b :: ·) := by
        simp [List.splitOn, List.splitOnP_cons_eq_if_modifyHead, hb]
      rw [hsplit, ih]
      simp [hb]

/-- The element that comes next in a path is the last one, or a separator follows it. -/
theorem isolate_split (ds : DirSearch) (hlast : ds.last = false) :
    ds.isolate.last = true ∧ ds.path.splitOn 47 = [ds.element] ∨
    ∃ rest, ds.isolate.last = false ∧ rest.length < ds.path.length ∧
      ds.path = ds.element ++ 47 :: rest ∧
      ds.path.splitOn 47 = ds.element :: rest.splitOn 47 := by
  have hpath : ds.element ++ ds.path.dropWhile (· ≠ 47) = ds.path :=
    List.takeWhile_append_dropWhile
  have hsplit := splitOn_slash ds.path
  have hisolate : ds.isolate.last =
      (ds.last || decide (ds.element.length = ds.path.length)) := rfl
  have hsum := congrArg List.length hpath
  rw [List.length_append] at hsum
  rw [hisolate, hlast, Bool.false_or, decide_eq_true_iff, decide_eq_false_iff_not]
  cases hdrop : ds.path.dropWhile (· ≠ 47) with
  | nil =>
    rw [hdrop] at hsplit hsum
    exact Or.inl ⟨hsum, hsplit⟩
  | cons b rest =>
    have hb : b = 47 := by
      have hhead := List.head_dropWhile_not (p := (· ≠ 47)) (l := ds.path) (by rw [hdrop]; nofun)
      simp only [hdrop, List.head_cons] at hhead
      simpa using hhead
    rw [hdrop] at hsplit hsum hpath
    subst hb
    rw [List.length_cons] at hsum
    exact Or.inr ⟨rest, by omega, by omega, hpath.symm, hsplit⟩

/-- The last element has no components behind it, and `ds.last` says so. -/
theorem isolate_last (ds : DirSearch) (hlast : ds.last = false) :
    ∃ rest, ds.path.splitOn 47 = ds.element :: rest ∧ ds.isolate.last = rest.isEmpty := by
  rcases isolate_split ds hlast with ⟨hl, hsplit⟩ | ⟨rest, hl, -, -, hsplit⟩
  · exact ⟨[], hsplit, hl⟩
  · refine ⟨rest.splitOn 47, hsplit, ?_⟩
    rw [hl, splitOn_slash rest]
    rfl

/-- No length from 256 on fits in a `char`. -/
theorem charBound_le (D : DirSupport Disk) : D.charBound ≤ 2 ^ 8 := by
  unfold DirSupport.charBound
  split <;> decide

/-- A `char` can count something, whether or not it is signed. -/
theorem charBound_pos (D : DirSupport Disk) : 0 < D.charBound := by
  unfold DirSupport.charBound
  split <;> decide

/-- A length that fits in a `char` is not negative there. -/
theorem negative_of_lt (hlen : ds.element.length < D.charBound) :
    D.negative ds.isolate = false := by
  have hnamelen : ds.isolate.namelen = ds.element.length % 2 ^ 8 := rfl
  unfold DirSupport.charBound at hlen
  unfold DirSupport.negative
  rw [hnamelen]
  cases hsigned : D.charSigned with
  | false => rfl
  | true =>
    rw [hsigned, if_pos rfl] at hlen
    rw [Bool.true_and, decide_eq_false_iff_not]
    omega

/-- A length that does not fit is negative there, or it is 256 or more. -/
theorem negative_of_ge (hlen : D.charBound ≤ ds.element.length)
    (hneg : D.negative ds.isolate = false) : 2 ^ 8 ≤ ds.element.length := by
  have hnamelen : ds.isolate.namelen = ds.element.length % 2 ^ 8 := rfl
  unfold DirSupport.charBound at hlen
  unfold DirSupport.negative at hneg
  rw [hnamelen] at hneg
  cases hsigned : D.charSigned with
  | false =>
    rw [hsigned] at hlen
    exact hlen
  | true =>
    rw [hsigned, if_pos rfl] at hlen
    rw [hsigned, Bool.true_and, decide_eq_false_iff_not] at hneg
    omega

/-- A component of less than 256 characters is isolated as it is. -/
theorem isolate_component (hlen : ds.element.length < 2 ^ 8) :
    ds.isolate.component = ds.element := by
  show ds.path.take (ds.element.length % 2 ^ 8) = _
  rw [Nat.mod_eq_of_lt hlen]
  exact (List.prefix_iff_eq_take.mp (List.takeWhile_prefix _)).symm

/-- The path behind a component of less than 256 characters and its separator. -/
theorem descend_path {rest : List UInt8} (hlen : ds.element.length < 2 ^ 8)
    (hpath : ds.path = ds.element ++ 47 :: rest) (node : Option Nat) :
    ({ ds.isolate with node := node }.descend n).path = rest := by
  have hdrop : ds.path.drop (ds.element.length % 2 ^ 8) = 47 :: rest := by
    rw [Nat.mod_eq_of_lt hlen]
    generalize ds.element = element at hpath
    rw [hpath, List.drop_left]
  show (if (ds.path.drop (ds.element.length % 2 ^ 8)).head? = some 47
    then (ds.path.drop (ds.element.length % 2 ^ 8)).tail
    else ds.path.drop (ds.element.length % 2 ^ 8)) = rest
  rw [hdrop]
  rfl

/-- The test for the component `"."`: it holds of the empty component too. -/
theorem take_dot_iff (hlen : ds.component.length = ds.namelen) :
    dot.take ds.namelen = ds.component ↔ ds.component = [] ∨ ds.component = dot := by
  constructor
  · intro h
    by_contra hne
    obtain ⟨hnil, hdot⟩ := not_or.mp hne
    rw [← h] at hnil hdot
    cases hk : ds.namelen with
    | zero => exact hnil (by rw [hk]; rfl)
    | succ k => exact hdot (by rw [hk, dot, List.take_succ_cons, List.take_nil])
  · rintro (h | h)
    · rw [h] at hlen ⊢
      rw [← hlen]
      rfl
    · rw [h] at hlen ⊢
      rw [← hlen]
      rfl

/-- The test for the component `".."`, behind the one for `"."`, is exact. -/
theorem take_dotdot_iff (hlen : ds.component.length = ds.namelen)
    (hnot : dot.take ds.namelen ≠ ds.component) :
    ds.component = dotdot.take ds.namelen ↔ ds.component = dotdot := by
  refine ⟨component_dotdot hlen hnot, fun h => ?_⟩
  rw [h] at hlen ⊢
  rw [← hlen]
  rfl

/-- A name is looked for in any case, so that the case of the path does not matter. -/
theorem findName_congr (entries : List DirEntry) {a b : List UInt8}
    (h : a.map toLower = b.map toLower) : findName entries a = findName entries b := by
  unfold findName DirEntry.named
  rw [h]

/-- The entry found is in the directory, and has the name. -/
theorem findName_spec {entries : List DirEntry} (h : findName entries name = some e) :
    e ∈ entries ∧ e.named name = true :=
  ⟨List.mem_of_find?_eq_some h, by simpa using List.find?_some h⟩

/-- The entry `"."` is found by its name, as any other is. -/
theorem find_dot (entries : List DirEntry) :
    entries.find? (fun e => e.filename = dot) = findName entries dot := by
  unfold findName
  congr 1
  ext1 e
  rw [Bool.eq_iff_iff, decide_eq_true_iff, DirEntry.named_iff]
  exact ⟨fun h => by rw [h], eq_dot_of_lower⟩

/-! ### The cache during a walk -/

/-- One component further: the cache still agrees with the directories, and while no node can be
    allocated it stays as it is. -/
structure Further (N : NodeCache Cache) (T : DirTree) (v v' : Volume Disk Cache) : Prop where
  agrees : Agrees N T v'
  disk : v'.disk = v.disk
  root : v'.root = v.root
  full : N.full v'.cache ↔ N.full v.cache
  same : N.full v.cache → N.node v'.cache = N.node v.cache

/-- Whether a component is looked up as it should does not change during a walk. -/
theorem Further.smooth_iff (h : Further N T v v') : Smooth D N T v' p ↔ Smooth D N T v p := by
  unfold Smooth Available Volume.hasNode
  rw [h.full]
  refine and_congr_right fun _ => forall_congr' fun hfull => ?_
  rw [h.same hfull]

/-- Whether a node can be allocated is decided by the reference counts, which a lookup does not
    change. -/
theorem AllocLaws.full_iff (A : AllocLaws N) {c' : Cache} (h : N.refs c' = N.refs c) :
    N.full c' ↔ N.full c := by
  constructor
  · rintro ⟨e, he⟩
    exact ⟨e, A.alloc_none h he⟩
  · rintro ⟨e, he⟩
    exact ⟨e, A.alloc_none h.symm he⟩

/-- No node can be allocated when one was not, whatever entry it is for. -/
theorem AllocLaws.full_alloc (A : AllocLaws N) (hfull : N.full c) (e : DirEntry) :
    N.alloc c e = none := by
  obtain ⟨e', he'⟩ := hfull
  exact A.alloc_none rfl he'

/-- A node that is found in the cache: it denotes what the entry with the name does. -/
theorem Agrees.hit (h : Agrees N T v) (L : CacheLaws N) (A : AllocLaws N) (hne : name ≠ [])
    (hfind : N.find v.cache name k = some n) :
    Further N T v { v with cache := N.touch v.cache n } ∧ name ≠ dotdot ∧
      ∃ e x, findName (T.entries k) name = some e ∧ N.node (N.touch v.cache n) n = some x ∧
        x.dentry.spot = e.spot := by
  obtain ⟨x, hx, hnamed, hplace⟩ := L.find_some hfind
  have hlower := DirEntry.named_iff.mp hnamed
  have htouch := L.touch v.cache n
  have hagrees : Agrees N T { v with cache := N.touch v.cache n } := by
    refine ⟨?_, fun m y hy => ?_⟩
    · show ∃ x, N.node (N.touch v.cache n) v.root = some x ∧ _
      rw [htouch]
      exact h.root
    · replace hy : N.node (N.touch v.cache n) m = some y := hy
      rw [htouch] at hy
      exact h.node m y hy
  -- a name that is not empty does not lead to the root directory
  have hnroot : n ≠ v.root := by
    rintro rfl
    obtain ⟨y, hy, -, hempty, -⟩ := h.root
    rw [hx] at hy
    cases hy
    rw [hempty] at hlower
    exact hne (List.map_eq_nil_iff.mp hlower.symm)
  obtain ⟨hdots, e, he, hspot⟩ := h.node n x hx hnroot
  refine ⟨⟨hagrees, rfl, rfl, A.full_iff (L.touch_kept v n).refs, fun _ => htouch⟩, ?_, e, x, ?_,
    ?_, hspot.symm⟩
  · rintro rfl
    exact hdots (eq_dotdot_of_lower hlower)
  · rw [← hplace, ← findName_congr _ hlower]
    exact he
  · rw [htouch]
    exact hx

/-- A node that is allocated for an entry keeps the cache in agreement with the tree. -/
theorem Agrees.new (h : Agrees N T v) (L : CacheLaws N) (A : AllocLaws N) (hdots : name ≠ dotdot)
    (he : findName (T.entries k) name = some e) (halloc : N.alloc v.cache e = some (n, c)) :
    Further N T v { v with cache := c } ∧ N.node c n = some ⟨e, 0⟩ := by
  obtain ⟨hmem, hnamed⟩ := findName_spec he
  have hlower := DirEntry.named_iff.mp hnamed
  obtain ⟨hkept, hn⟩ := L.alloc_kept (v := v) halloc
  obtain ⟨hzero, hnode⟩ := L.alloc halloc
  refine ⟨⟨⟨?_, fun m y hy hm => ?_⟩, rfl, rfl, A.full_iff hkept.refs, fun hfull => ?_⟩, hn⟩
  · obtain ⟨x, hx, hpos, hrest⟩ := h.root
    exact ⟨x, hkept.node _ x hx hpos, hpos, hrest⟩
  · replace hy : N.node c m = some y := hy
    rw [hnode] at hy
    by_cases hmn : m = n
    · -- the new node has the name and the place of the entry
      subst hmn
      rw [Function.update_self] at hy
      cases hy
      refine ⟨fun hfile => hdots ?_, e, ?_, rfl⟩
      · rw [hfile] at hlower
        exact eq_dotdot_of_lower hlower.symm
      · rw [T.place k e hmem, findName_congr _ hlower]
        exact he
    · rw [Function.update_of_ne hmn] at hy
      exact h.node m y hy hm
  · rw [A.full_alloc hfull e] at halloc
    cases halloc

/-- A name that is not in the cache has no node, by the two laws of the search. -/
theorem hasNode_iff (L : CacheLaws N) :
    v.hasNode N (name, k) ↔ N.find v.cache name k ≠ none := by
  constructor
  · rintro ⟨n, x, hx, hnamed, hplace⟩ hnone
    exact L.find_none hnone hx hnamed hplace
  · intro hne
    obtain ⟨n, hn⟩ := Option.ne_none_iff_exists'.mp hne
    obtain ⟨x, hx⟩ := L.find_some hn
    exact ⟨n, x, hx⟩

/-! ### One component -/

/-- An entry that denotes a directory is that of one, with its cluster. -/
theorem DirEntry.spot_dir (h : e.spot = .dir k) : e.isDir = true ∧ e.cluster = k := by
  unfold DirEntry.spot at h
  split at h
  · exact ⟨by assumption, by simpa using h⟩
  · cases h

/-- A directory is known by its first cluster, under which it is in the tree. -/
theorem DirEntry.spot_of_isDir (h : e.isDir = true) : e.spot = .dir e.cluster := by
  unfold DirEntry.spot
  rw [if_pos h]

/-- A node that stands for a place, in the cache `v'` that a lookup leaves. -/
structure Reached (N : NodeCache Cache) (T : DirTree) (v v' : Volume Disk Cache) (n : Nat)
    (s : Spot) : Prop where
  further : Further N T v v'
  node : ∃ x, N.node v'.cache n = some x ∧ x.dentry.spot = s

/-- A volume is as far as itself: no lookup, no change. -/
theorem Further.refl (h : Agrees N T v) : Further N T v v :=
  ⟨h, rfl, rfl, Iff.rfl, fun _ => rfl⟩

/-- A lookup as far as `v'`, and another from there, are one as far as the second. -/
theorem Further.trans {v'' : Volume Disk Cache} (h : Further N T v v') (h' : Further N T v' v'') :
    Further N T v v'' :=
  ⟨h'.agrees, h'.disk.trans h.disk, h'.root.trans h.root, h'.full.trans h.full,
    fun hfull => (h'.same (h.full.mpr hfull)).trans (h.same hfull)⟩

/-- The entry `".."` leads to the root directory, or to the parent directory. -/
theorem step_dotdot (hname : findName (T.entries k) dotdot = some e) :
    T.step k dotdot = some (.dir (if e.cluster = 0 then T.root else e.cluster)) := by
  have hne : ¬(dotdot = [] ∨ dotdot = dot) := by decide
  simp only [DirTree.step, hne, if_false, hname, if_true]

/-- The node that `".."` needs is the node `"."` of the parent, or none above the root. -/
theorem needed_dotdot (hname : findName (T.entries k) dotdot = some e) :
    T.needed k dotdot = if e.cluster = 0 then none else some (dot, e.cluster) := by
  have hne : ¬(dotdot = [] ∨ dotdot = dot) := by decide
  simp only [DirTree.needed, hne, if_false, hname, if_true]

/-- A component that the directory has not is not `"."` and has no entry. -/
theorem step_none (hstep : T.step k name = none) :
    ¬(name = [] ∨ name = dot) ∧ findName (T.entries k) name = none := by
  unfold DirTree.step at hstep
  split at hstep
  · cases hstep
  refine ⟨by assumption, ?_⟩
  cases hname : findName (T.entries k) name with
  | none => rfl
  | some e =>
    rw [hname] at hstep
    dsimp only at hstep
    split at hstep <;> cases hstep

/-- A component that the directory has not needs no node. -/
theorem needed_none (hstep : T.step k name = none) : T.needed k name = none := by
  obtain ⟨hcomp, hname⟩ := step_none hstep
  simp only [DirTree.needed, hcomp, if_false, hname]

/-- The node for an entry: a cached one, a new one, or none. -/
theorem cachedNode_step (h : Agrees N T v) (L : CacheLaws N) (A : AllocLaws N) (hne : name ≠ [])
    (hdots : name ≠ dotdot) (he : findName (T.entries k) name = some e)
    (hneed : T.needed p.1 p.2 = some (name, k)) :
    (Available N T v p.1 p.2 ∧ ∃ v' n, Reached N T v v' n e.spot ∧
        cachedNode N v ds name k e = (.ENOERR, v', { ds with node := some n })) ∨
      ¬Available N T v p.1 p.2 ∧
        cachedNode N v ds name k e = (.EMFILE, v, { ds with node := none }) := by
  have havail : Available N T v p.1 p.2 ↔ (N.full v.cache → N.find v.cache name k ≠ none) := by
    unfold Available
    rw [hneed, ← hasNode_iff L]
    exact forall_congr' fun _ => ⟨fun h => h _ rfl, fun h key hkey => Option.some.inj hkey ▸ h⟩
  rw [havail]
  unfold cachedNode
  cases hfind : N.find v.cache name k with
  | some n =>
    obtain ⟨hfurther, -, e', x, he', hx, hspot⟩ := h.hit L A hne hfind
    rw [he] at he'
    cases he'
    exact Or.inl ⟨fun _ => nofun, _, n, ⟨hfurther, x, hx, hspot⟩, rfl⟩
  | none =>
    cases halloc : N.alloc v.cache e with
    | some r =>
      obtain ⟨hfurther, hn⟩ := h.new L A hdots he halloc
      refine Or.inl ⟨fun hfull => ?_, _, r.1, ⟨hfurther, _, hn, rfl⟩, rfl⟩
      rw [A.full_alloc hfull e] at halloc
      cases halloc
    | none => exact Or.inr ⟨fun havail => havail ⟨e, halloc⟩ rfl, rfl⟩

section

variable {s : Spot} (R : Reads D v.disk T) (hx : N.node v.cache ds.dir = some x)
  (hspot : x.dentry.spot = .dir k) (hlen : ds.component.length = ds.namelen)

include R hx hspot hlen

/-- A name that is found in the directory, and that is not `".."`. -/
theorem findDirentry_cached (hdots : ds.component ≠ dotdot)
    (hcomp : ¬(ds.component = [] ∨ ds.component = dot))
    (hname : findName (T.entries k) ds.component = some e) :
    findDirentry D N v ds = some (cachedNode N v ds ds.component k e) := by
  obtain ⟨hdir, hk⟩ := DirEntry.spot_dir hspot
  have hnot : dot.take ds.namelen ≠ ds.component := by
    rw [ne_eq, take_dot_iff hlen]
    exact hcomp
  have hnot' : ds.component ≠ dotdot.take ds.namelen := by
    rw [ne_eq, take_dotdot_iff hlen hnot]
    exact hdots
  have hscan : (D.readDir v.disk x.dentry).1.find? (fun e => e.named ds.component) = some e := by
    rw [(R x.dentry hdir).1, hk]
    exact hname
  unfold findDirentry cachedNode
  simp only [hx, Option.bind_eq_bind, Option.bind_some, hnot, if_false, hk]
  cases N.find v.cache ds.component k with
  | some n => rfl
  | none =>
    simp only [hscan, hnot', if_false]
    cases N.alloc v.cache e <;> rfl

variable (h : Agrees N T v) (L : CacheLaws N) (A : AllocLaws N)

include h L A

/-- A name `".."` that is found in the directory leads to its parent. -/
theorem findDirentry_parent (hdots : ds.component = dotdot)
    (hname : findName (T.entries k) dotdot = some e) :
    findDirentry D N v ds = some (findParent D N v ds e) := by
  obtain ⟨hdir, hk⟩ := DirEntry.spot_dir hspot
  have hnot : dot.take ds.namelen ≠ ds.component := by
    rw [ne_eq, take_dot_iff hlen, hdots]
    decide
  have hdots' := (take_dotdot_iff hlen hnot).mpr hdots
  have hscan : (D.readDir v.disk x.dentry).1.find? (fun e => e.named ds.component) = some e := by
    rw [(R x.dentry hdir).1, hk, hdots]
    exact hname
  -- no node has the name `".."`
  have hfind : N.find v.cache ds.component x.dentry.cluster = none := by
    cases hfind : N.find v.cache ds.component x.dentry.cluster with
    | none => rfl
    | some n =>
      have hne : ds.component ≠ [] := by
        rw [hdots]
        decide
      exact absurd hdots (h.hit L A hne hfind).2.1
  simp only [findDirentry, hx, Option.bind_eq_bind, Option.bind_some, hnot, if_false, hfind, hscan,
    if_pos hdots', Option.pure_def]

/-- A name that the directory has not is answered by no node, and the cache is not changed. -/
theorem findDirentry_none (hstep : T.step k ds.component = none) :
    findDirentry D N v ds = some (.ENOERR, v, { ds with node := none }) := by
  obtain ⟨hdir, hk⟩ := DirEntry.spot_dir hspot
  obtain ⟨hread, heof⟩ := R x.dentry hdir
  obtain ⟨hcomp, hname⟩ := step_none hstep
  have hnot : dot.take ds.namelen ≠ ds.component := by
    rw [ne_eq, take_dot_iff hlen]
    exact hcomp
  -- a node with the name would have an entry
  have hfind : N.find v.cache ds.component x.dentry.cluster = none := by
    cases hfind : N.find v.cache ds.component x.dentry.cluster with
    | none => rfl
    | some n =>
      obtain ⟨-, -, e, -, he, -⟩ := h.hit L A (not_or.mp hcomp).1 hfind
      rw [hk, hname] at he
      cases he
  have hscan : (D.readDir v.disk x.dentry).1.find? (fun e => e.named ds.component) = none := by
    rw [hread, hk]
    exact hname
  simp [findDirentry, hx, hnot, hfind, hscan, heof]

/-- A name that the directory has: its node is found or allocated, if it is available. -/
theorem findDirentry_some (hstep : T.step k ds.component = some s) :
    (Available N T v k ds.component ∧ ∃ v' n, Reached N T v v' n s ∧
        findDirentry D N v ds = some (.ENOERR, v', { ds with node := some n })) ∨
      ¬Available N T v k ds.component ∧
        findDirentry D N v ds = some (.EMFILE, v, { ds with node := none }) := by
  by_cases hcomp : ds.component = [] ∨ ds.component = dot
  · -- the component stays in the directory
    have hs : Spot.dir k = s := by simpa [DirTree.step, hcomp] using hstep
    have hdot := (take_dot_iff hlen).mpr hcomp
    refine Or.inl ⟨fun _ key hkey => ?_, v, ds.dir, ⟨.refl h, x, hx, hspot.trans hs⟩, ?_⟩
    · simp [DirTree.needed, hcomp] at hkey
    · simp [findDirentry, hx, hdot]
  cases hname : findName (T.entries k) ds.component with
  | none => simp [DirTree.step, hcomp, hname] at hstep
  | some e =>
    by_cases hdots : ds.component = dotdot
    · rw [hdots] at hname hstep ⊢
      rw [findDirentry_parent R hx hspot hlen h L A hdots hname]
      rw [step_dotdot hname] at hstep
      unfold findParent
      by_cases hzero : e.cluster = 0
      · -- the parent is the root directory
        rw [if_pos hzero] at hstep ⊢
        obtain ⟨y, hy, -, -, hroot⟩ := h.root
        have hs := hroot.trans (Option.some.inj hstep)
        refine Or.inl ⟨fun _ key hkey => ?_, v, v.root, ⟨.refl h, y, hy, hs⟩, rfl⟩
        simp [needed_dotdot hname, hzero] at hkey
      · rw [if_neg hzero] at hstep
        obtain ⟨hisDir, hsome⟩ := T.parent k e hname hzero
        obtain ⟨z, hz⟩ := Option.isSome_iff_exists.mp hsome
        obtain ⟨hzmem, hznamed⟩ := findName_spec hz
        obtain ⟨hzdir, hzself⟩ := T.self _ z hz
        have hs : z.spot = s := by
          rw [DirEntry.spot_of_isDir hzdir, hzself]
          exact Option.some.inj hstep
        have hneed : T.needed k dotdot = some (dot, e.cluster) := by
          rw [needed_dotdot hname, if_neg hzero]
        -- the parent directory is known by its entry `"."`
        have hcached : findParent D N v ds e = cachedNode N v ds dot e.cluster z := by
          unfold findParent
          rw [if_neg hzero]
          simp only [(R e hisDir).1, find_dot, hz, T.place _ z hzmem,
            eq_dot_of_lower (DirEntry.named_iff.mp hznamed)]
        rw [← findParent, hcached, ← hs]
        simp only [Option.some.injEq]
        exact cachedNode_step (p := (k, dotdot)) h L A (by decide) (by decide) hz hneed
    · have hs : e.spot = s := by simpa [DirTree.step, hcomp, hname, hdots] using hstep
      have hneed : T.needed k ds.component = some (ds.component, k) := by
        simp [DirTree.needed, hcomp, hname, hdots]
      rw [findDirentry_cached R hx hspot hlen hdots hcomp hname, ← hs]
      simp only [Option.some.injEq]
      exact cachedNode_step (p := (k, ds.component)) h L A (not_or.mp hcomp).1 hdots hname hneed

end

/-! ### The next element of a path -/

/-- An element is not looked up in a file. -/
theorem findEntry_file (hx : N.node v.cache ds.dir = some x) (hfile : x.dentry.isDir = false) :
    findEntry D N v ds = some (.ENOTDIR, v, ds) := by
  simp only [findEntry, hx, Option.bind_eq_bind, Option.bind_some, hfile, if_true, Option.pure_def]

section

variable {s : Spot} (R : Reads D v.disk T) (hx : N.node v.cache ds.dir = some x)
  (hspot : x.dentry.spot = .dir k) (h : Agrees N T v) (L : CacheLaws N) (A : AllocLaws N)
  (hlen : ds.element.length < D.charBound)

include R hx hspot h L A hlen

/-- An element that the directory has not is answered by `ENOENT`. -/
theorem findEntry_none (hstep : T.step k ds.element = none) :
    findEntry D N v ds = some (.ENOENT, v, { ds.isolate with node := none }) := by
  have hdir : ¬x.dentry.isDir = false := by simp [(DirEntry.spot_dir hspot).1]
  have hcomp : ds.isolate.component = ds.element :=
    isolate_component (hlen.trans_le (charBound_le D))
  have hx' : N.node v.cache ds.isolate.dir = some x := hx
  have hfind := findDirentry_none R hx' hspot (isolate_length ds) h L A
    (by rw [hcomp]; exact hstep)
  simp only [findEntry, hx, Option.bind_eq_bind, Option.bind_some, hdir, hfind,
    negative_of_lt hlen]
  rfl

/-- An element that the directory has is found, unless the node that it needs is not available. -/
theorem findEntry_some (hstep : T.step k ds.element = some s) :
    (Available N T v k ds.element ∧ ∃ v' n, Reached N T v v' n s ∧
        findEntry D N v ds = some (.ENOERR, v', { ds.isolate with node := some n })) ∨
      ¬Available N T v k ds.element ∧
        findEntry D N v ds = some (.EMFILE, v, { ds.isolate with node := none }) := by
  have hdir : ¬x.dentry.isDir = false := by simp [(DirEntry.spot_dir hspot).1]
  have hcomp : ds.isolate.component = ds.element :=
    isolate_component (hlen.trans_le (charBound_le D))
  have hx' : N.node v.cache ds.isolate.dir = some x := hx
  have hfind := findDirentry_some (s := s) R hx' hspot (isolate_length ds) h L A
    (by rw [hcomp]; exact hstep)
  rw [hcomp] at hfind
  refine hfind.imp (fun ⟨havail, v', n, hreached, hfind⟩ => ⟨havail, v', n, hreached, ?_⟩)
    fun ⟨havail, hfind⟩ => ⟨havail, ?_⟩
  · simp only [findEntry, hx, Option.bind_eq_bind, Option.bind_some, hdir, hfind,
      negative_of_lt hlen]
    rfl
  · simp only [findEntry, hx, Option.bind_eq_bind, Option.bind_some, hdir, hfind,
      negative_of_lt hlen]
    rfl

end

/-! ### A path -/

/-- An element whose length is negative in a `char` is not looked up. -/
theorem findEntry_negative (hx : N.node v.cache ds.dir = some x) (hdir : x.dentry.isDir = true)
    (hneg : D.negative ds.isolate = true) : findEntry D N v ds = none := by
  simp [findEntry, hx, hdir, hneg, guard]

/-- The loop ends with an error of one of its turns. -/
theorem findLoop_error (h : findEntry D N v ds = some (err, v', ds')) (herr : err ≠ .ENOERR) :
    findLoop D N (fuel + 1) v ds = some (err, v', ds') := by
  simp only [findLoop, h, Option.bind_eq_bind, Option.bind_some, if_pos herr, Option.pure_def]

/-- The loop ends with the last element, and its node. -/
theorem findLoop_last (h : findEntry D N v ds = some (.ENOERR, v', ds'))
    (hlast : ds'.last = true) : findLoop D N (fuel + 1) v ds = some (.ENOERR, v', ds') := by
  simp [findLoop, h, hlast]

/-- The loop goes on in the directory that was found, with the rest of the path. -/
theorem findLoop_next (h : findEntry D N v ds = some (.ENOERR, v', ds'))
    (hlast : ds'.last = false) (hn : ds'.node = some n) :
    findLoop D N (fuel + 1) v ds = findLoop D N fuel v' (ds'.descend n) := by
  simp [findLoop, h, hlast, hn]

/-- A name that is longer than any in a directory is not found, so that its length does not
    matter. -/
theorem step_long (hlen : 12 < name.length) : T.step k name = none := by
  have hcomp : ¬(name = [] ∨ name = dot) := by
    rintro (rfl | rfl)
    · cases hlen
    · exact absurd hlen (by decide)
  have hname : findName (T.entries k) name = none := by
    refine List.find?_eq_none.mpr fun e he hnamed => ?_
    have hsame := congrArg List.length (DirEntry.named_iff.mp hnamed)
    rw [List.length_map, List.length_map] at hsame
    have hshort := T.short k e he
    omega
  simp only [DirTree.step, hcomp, if_false, hname]

/-- The length that a failed lookup notes fits in a `char`, where the caller reads it again. -/
theorem findEntry_namelen (h : findEntry D N v ds = some (.ENOENT, v', ds')) :
    ds'.namelen < 2 ^ 8 := by
  obtain ⟨dir, -, ⟨-, herr, -⟩ | ⟨-, err', hfind, -⟩⟩ := findEntry_cases h
  · cases herr
  have hlt : ds.isolate.namelen < 2 ^ 8 := Nat.mod_lt _ (by decide)
  obtain ⟨dir', -, hstep⟩ := findDirentry_cases hfind
  cases hstep <;> exact hlt

/-- A lookup that ends with `ENOENT` has stopped at a name that `namelen` can count. -/
theorem findLoop_namelen (h : findLoop D N fuel v ds = some (.ENOENT, v', ds')) :
    ds'.namelen < 2 ^ 8 := by
  refine findLoop_induction (P := fun _ _ => True)
    (Q := fun err _ d => err = .ENOENT → d.namelen < 2 ^ 8) ?_ h trivial rfl
  intro w d err w' d' _ hentry
  refine ⟨fun herr => ?_, fun _ _ _ => trivial⟩
  subst herr
  exact findEntry_namelen hentry

/-- **A path whose components are looked up as they should be**: the loop ends, with the outcome of
    the walk. -/
theorem findLoop_walk (L : CacheLaws N) (A : AllocLaws N) (R : Reads D v.disk T)
    (h : Agrees N T v) (hx : N.node v.cache ds.dir = some x) (hlast : ds.last = false)
    (hsmooth : ∀ p ∈ T.lookups x.dentry.spot (ds.path.splitOn 47), Smooth D N T v p) :
    ∃ err v' ds', (∀ fuel, ds.path.length < fuel → findLoop D N fuel v ds = some (err, v', ds')) ∧
      Meets N v' ds' err (T.walk x.dentry.spot (ds.path.splitOn 47)) := by
  induction hk : ds.path.length using Nat.strong_induction_on generalizing v ds x with
  | _ k ih =>
  obtain ⟨rest, hsplit, hrest⟩ := isolate_last ds hlast
  by_cases hdir : x.dentry.isDir = true
  · -- the element is looked up in a directory
    have hspot := DirEntry.spot_of_isDir hdir
    rw [hspot, hsplit] at hsmooth ⊢
    obtain ⟨hlen, havail⟩ := hsmooth (x.dentry.cluster, ds.element) List.mem_cons_self
    cases hstep : T.step x.dentry.cluster ds.element with
    | none =>
      have hentry := findEntry_none R hx hspot h L A hlen hstep
      refine ⟨.ENOENT, v, { ds.isolate with node := none }, fun fuel hlt => ?_, ?_⟩
      · obtain ⟨f, rfl⟩ := Nat.exists_eq_succ_of_ne_zero (Nat.ne_zero_of_lt hlt)
        exact findLoop_error hentry nofun
      · have hcomp : ds.isolate.component = ds.element :=
          isolate_component (hlen.trans_le (charBound_le D))
        simp only [DirTree.walk, hstep]
        rw [← hrest, ← hcomp]
        exact .noEntry hx hspot (isolate_length ds).symm
    | some s =>
      obtain ⟨-, v₁, n, ⟨hfurther, y, hy, hs⟩, hentry⟩ :=
        (findEntry_some R hx hspot h L A hlen hstep).resolve_right fun hno => hno.1 havail
      simp only [DirTree.walk, DirTree.lookups, hstep] at hsmooth ⊢
      rw [← hs] at hsmooth ⊢
      rcases isolate_split ds hlast with ⟨hl, hsplit'⟩ | ⟨path, hl, hlt, hpath, hsplit'⟩
      · -- it was the last one
        rw [hsplit] at hsplit'
        rw [(List.cons.inj hsplit').2]
        refine ⟨.ENOERR, v₁, { ds.isolate with node := some n }, fun fuel hlt => ?_, ?_⟩
        · obtain ⟨f, rfl⟩ := Nat.exists_eq_succ_of_ne_zero (Nat.ne_zero_of_lt hlt)
          exact findLoop_last hentry hl
        · exact .found rfl hy
      · rw [hsplit] at hsplit'
        rw [(List.cons.inj hsplit').2] at hsmooth ⊢
        have hnext := descend_path (n := n) (hlen.trans_le (charBound_le D)) hpath (some n)
        have hy' : N.node v₁.cache ({ ds.isolate with node := some n }.descend n).dir = some y := hy
        have hrec := ih path.length (hk ▸ hlt) (hfurther.disk ▸ R) hfurther.agrees hy' hl (by
            rw [hnext]
            intro p hp
            exact hfurther.smooth_iff.mpr (hsmooth p (List.mem_cons_of_mem _ hp)))
          (by rw [hnext])
        obtain ⟨err, v', ds', hloop, hmeets⟩ := hrec
        rw [hnext] at hmeets
        refine ⟨err, v', ds', fun fuel hfuel => ?_, hmeets⟩
        obtain ⟨f, rfl⟩ := Nat.exists_eq_succ_of_ne_zero (Nat.ne_zero_of_lt hfuel)
        rw [findLoop_next hentry hl rfl]
        exact hloop f (by omega)
  · -- the element is to be looked up in a file
    have hfile : x.dentry.isDir = false := by simpa using hdir
    have hspot : x.dentry.spot = .file x.dentry.parentCluster (x.dentry.filename.map toLower) := by
      simp [DirEntry.spot, hdir]
    refine ⟨.ENOTDIR, v, ds, fun fuel hlt => ?_, ?_⟩
    · obtain ⟨f, rfl⟩ := Nat.exists_eq_succ_of_ne_zero (Nat.ne_zero_of_lt hlt)
      exact findLoop_error (findEntry_file hx hfile) nofun
    · rw [hspot, hsplit]
      exact .notDir

/-- An outcome that is looked up by a name of 256 characters or more is not delivered: the length
    that is noted is smaller. -/
theorem not_meets_long (hloop : findLoop D N fuel v ds = some (err, v', ds'))
    (hlong : 2 ^ 8 ≤ name.length) {last : Bool} :
    ¬Meets N v' ds' err (.noEntry k name last) := by
  intro hmeets
  cases hmeets with
  | noEntry hx hspot hlen =>
    have hlt := findLoop_namelen hloop
    omega

/-- **A path with a component that is not looked up as it should be**: if the loop ends at all, it
    ends with another result. -/
theorem findLoop_rough (L : CacheLaws N) (A : AllocLaws N) (R : Reads D v.disk T)
    (h : Agrees N T v) (hx : N.node v.cache ds.dir = some x) (hlast : ds.last = false)
    (hp : p ∈ T.lookups x.dentry.spot (ds.path.splitOn 47)) (hrough : ¬Smooth D N T v p)
    (hloop : findLoop D N fuel v ds = some (err, v', ds')) :
    ¬Meets N v' ds' err (T.walk x.dentry.spot (ds.path.splitOn 47)) := by
  induction fuel generalizing v ds x with
  | zero => cases hloop
  | succ fuel ih =>
  obtain ⟨rest, hsplit, hrest⟩ := isolate_last ds hlast
  by_cases hdir : x.dentry.isDir = true
  · have hspot := DirEntry.spot_of_isDir hdir
    rw [hspot, hsplit] at hp ⊢
    by_cases hlen : ds.element.length < D.charBound
    · cases hstep : T.step x.dentry.cluster ds.element with
      | none =>
        -- the only component that is looked up, and it needs no node
        simp only [DirTree.lookups, hstep, List.mem_singleton] at hp
        refine absurd ⟨?_, fun _ key hkey => ?_⟩ hrough
        · rw [hp]
          exact hlen
        · rw [hp] at hkey
          rw [needed_none hstep] at hkey
          cases hkey
      | some s =>
        simp only [DirTree.walk, DirTree.lookups, hstep] at hp ⊢
        rcases findEntry_some R hx hspot h L A hlen hstep with
          ⟨havail, v₁, n, ⟨hfurther, y, hy, hs⟩, hentry⟩ | ⟨-, hentry⟩
        · have hp' : p ∈ T.lookups s rest := by
            rcases List.mem_cons.mp hp with rfl | hp'
            · exact absurd ⟨hlen, havail⟩ hrough
            · exact hp'
          rw [← hs] at hp' ⊢
          rcases isolate_split ds hlast with ⟨-, hsplit'⟩ | ⟨path, hl, -, hpath, hsplit'⟩
          · -- nothing is looked up behind the last one
            rw [hsplit] at hsplit'
            rw [(List.cons.inj hsplit').2] at hp'
            simp [DirTree.lookups] at hp'
          · rw [hsplit] at hsplit'
            rw [(List.cons.inj hsplit').2] at hp' ⊢
            have hnext := descend_path (n := n) (hlen.trans_le (charBound_le D)) hpath (some n)
            rw [findLoop_next hentry hl rfl] at hloop
            rw [← hnext] at hp' ⊢
            exact ih (hfurther.disk ▸ R) hfurther.agrees hy hl hp'
              (fun hsmooth => hrough (hfurther.smooth_iff.mp hsmooth)) hloop
        · rw [findLoop_error hentry nofun] at hloop
          cases hloop
          exact nofun
    · have hlong : D.charBound ≤ ds.element.length := Nat.not_lt.mp hlen
      by_cases hneg : D.negative ds.isolate = true
      · -- the lookup of a name with a negative length is undefined
        rw [findLoop, findEntry_negative hx hdir hneg] at hloop
        cases hloop
      -- no directory has a name as long as this
      have hlong' := negative_of_ge hlong (Bool.eq_false_iff.mpr hneg)
      have hstep : T.step x.dentry.cluster ds.element = none := step_long (by omega)
      simp only [DirTree.walk, hstep]
      exact not_meets_long hloop hlong'
  · have hspot : x.dentry.spot = .file x.dentry.parentCluster (x.dentry.filename.map toLower) := by
      simp [DirEntry.spot, hdir]
    rw [hspot, hsplit] at hp
    cases hp

/-- A component whose length is a multiple of 256 is taken for an empty one, and the loop does not
    get beyond it. -/
theorem findLoop_stuck (hx : N.node v.cache ds.dir = some x) (hdir : x.dentry.isDir = true)
    (hlast : ds.last = false) (hslash : ds.element ≠ ds.path) (hne : ds.element ≠ [])
    (hwrap : ds.element.length % 2 ^ 8 = 0) : findLoop D N fuel v ds = none := by
  induction fuel generalizing ds with
  | zero => rfl
  | succ fuel ih =>
  have hzero : ds.isolate.namelen = 0 := hwrap
  have hdot : dot.take ds.isolate.namelen = ds.isolate.component := by
    rw [DirSearch.component, hzero]
    rfl
  have hx' : N.node v.cache ds.isolate.dir = some x := hx
  have hentry : findEntry D N v ds
      = some (.ENOERR, v, { ds.isolate with node := some ds.dir }) := by
    have hneg : D.negative ds.isolate = false := by
      unfold DirSupport.negative
      rw [hzero, Bool.and_eq_false_iff]
      exact Or.inr rfl
    simp [findEntry, findDirentry, hx, hx', hdir, hdot, hneg, guard]
    rfl
  have hl : ds.isolate.last = false := by
    show (ds.last || decide (ds.element.length = ds.path.length)) = false
    rw [hlast, Bool.false_or, decide_eq_false_iff_not]
    exact fun heq => hslash ((List.takeWhile_prefix _).eq_of_length heq)
  -- the rest of the path is the path
  have hpath : ({ ds.isolate with node := some ds.dir }.descend ds.dir).path = ds.path := by
    have hhead : ds.path.head? ≠ some 47 := by
      intro hhead
      obtain ⟨rest, hrest⟩ := List.head?_eq_some_iff.mp hhead
      exact hne (by simp [DirSearch.element, hrest])
    show (if (ds.path.drop ds.isolate.namelen).head? = some 47
      then (ds.path.drop ds.isolate.namelen).tail else ds.path.drop ds.isolate.namelen) = ds.path
    rw [hzero, List.drop_zero, if_neg hhead]
  rw [findLoop_next hentry hl rfl]
  have helement : ({ ds.isolate with node := some ds.dir }.descend ds.dir).element
      = ds.element := by
    unfold DirSearch.element
    rw [hpath]
  refine ih hx hl ?_ ?_ ?_
  · rw [helement, hpath]
    exact hslash
  · rw [helement]
    exact hne
  · rw [helement]
    exact hwrap

/-- **Path lookup.**  `fatfs_find` ends, with the outcome of the walk of the components of the
    path, if and only if each component that is looked up in a directory has a length that fits in a
    `char` (less than 128 characters where it is signed, less than 256 where it is not), and its
    node is cached or can be allocated. -/
theorem path_walk (L : CacheLaws N) (A : AllocLaws N) (T : DirTree) (v : Volume Disk Cache)
    (R : Reads D v.disk T) (h : Agrees N T v) (dir : Option Nat) (x : FatNode)
    (hx : N.node v.cache (dir.getD v.root) = some x) (hdir : x.dentry.isDir = true)
    (path : List UInt8) :
    (∃ err v' ds',
      (∀ fuel, path.length < fuel →
        fatfsFind D N fuel v (initDirsearch v.root dir path) = some (err, v', ds')) ∧
      Meets N v' ds' err (T.walk (.dir x.dentry.cluster) (path.splitOn 47))) ↔
    ∀ p ∈ T.lookups (.dir x.dentry.cluster) (path.splitOn 47), Smooth D N T v p := by
  rw [← DirEntry.spot_of_isDir hdir]
  by_cases hempty : path = []
  · -- the path is not looked at
    subst hempty
    have hcomps : ([] : List UInt8).splitOn 47 = [[]] := rfl
    have hstep : T.step x.dentry.cluster [] = some (.dir x.dentry.cluster) := rfl
    constructor
    · intro _ p hp
      rw [hcomps, DirEntry.spot_of_isDir hdir] at hp
      simp only [DirTree.lookups, hstep, List.mem_singleton] at hp
      rw [hp]
      exact ⟨charBound_pos D, fun _ => nofun⟩
    · intro _
      refine ⟨.ENOERR, v, initDirsearch v.root dir [], fun fuel _ => if_pos rfl, ?_⟩
      have hwalk : T.walk x.dentry.spot (([] : List UInt8).splitOn 47) = .found x.dentry.spot := by
        rw [hcomps, DirEntry.spot_of_isDir hdir]
        rfl
      rw [hwalk]
      exact .found rfl hx
  · have hx' : N.node v.cache (initDirsearch v.root dir path).dir = some x := hx
    have hfind : ∀ fuel, fatfsFind D N fuel v (initDirsearch v.root dir path)
        = findLoop D N fuel v (initDirsearch v.root dir path) := fun fuel => if_neg hempty
    simp only [hfind]
    constructor
    · rintro ⟨err, v', ds', hloop, hmeets⟩ p hp
      by_contra hrough
      exact findLoop_rough L A R h hx' rfl hp hrough
        (hloop _ (Nat.lt_succ_self _)) hmeets
    · intro hsmooth
      exact findLoop_walk L A R h hx' rfl hsmooth

/-! ### A disk in memory -/

namespace MemDisk

variable {d : MemDisk}

/-- The entry of a directory with one of the names `"."` and `".."`. -/
theorem findName_dots (hown : ∀ e ∈ d.entries, e.own) {c : BitVec 32}
    (h : findName (d.list c) name = some e) :
    (name = dot → e = dirEntry c dot c) ∧
      (name = dotdot → e = dirEntry c dotdot (d.parent c)) := by
  obtain ⟨hmem, hnamed⟩ := findName_spec h
  have hlower := DirEntry.named_iff.mp hnamed
  constructor
  · rintro rfl
    have hfile := eq_dot_of_lower hlower
    rcases mem_list.mp hmem with ⟨-, rfl | rfl⟩ | ⟨hmem, -⟩
    · rfl
    · cases hfile
    · exact absurd hfile (hown e hmem).1
  · rintro rfl
    have hfile := eq_dotdot_of_lower hlower
    rcases mem_list.mp hmem with ⟨-, rfl | rfl⟩ | ⟨hmem, -⟩
    · cases hfile
    · rfl
    · exact absurd hfile (hown e hmem).2

/-- The directories of a disk in memory, as a tree that paths are walked in. -/
def dirTree (d : MemDisk) (hown : ∀ e ∈ d.entries, e.own)
    (hshort : ∀ e ∈ d.entries, e.filename.length ≤ 12) : DirTree where
  root := 0
  entries := d.list
  place c e he := by
    rcases mem_list.mp he with ⟨-, rfl | rfl⟩ | ⟨-, hplace⟩
    · rfl
    · rfl
    · exact hplace
  short c e he := by
    rcases mem_list.mp he with ⟨-, rfl | rfl⟩ | ⟨hmem, -⟩
    · exact Nat.le_of_ble_eq_true rfl
    · exact Nat.le_of_ble_eq_true rfl
    · exact hshort e hmem
  self c e h := by
    rw [(findName_dots hown h).1 rfl]
    exact ⟨rfl, rfl⟩
  parent c e h hne := by
    rw [(findName_dots hown h).2 rfl] at hne ⊢
    have hparent : d.parent c ≠ 0 := hne
    refine ⟨rfl, ?_⟩
    -- the list starts with the entry `"."`
    show (findName (d.list (d.parent c)) dot).isSome = true
    rw [list, if_neg hparent]
    rfl

end MemDisk

/-- The table of nodes always has room, so an allocation never fails there. -/
theorem tableCache_alloc : AllocLaws tableCache := ⟨fun _ => nofun⟩

/-- A disk that has just been mounted: only the root directory has a node. -/
theorem mounted_agrees (d : MemDisk) (hown : ∀ e ∈ d.entries, e.own)
    (hshort : ∀ e ∈ d.entries, e.filename.length ≤ 12) :
    Agrees tableCache (d.dirTree hown hshort) (mounted d 0).toVolume := by
  refine ⟨⟨⟨rootEntry, 1⟩, rfl, Nat.one_pos, rfl, rfl⟩, fun n x hx hn => ?_⟩
  have hlt : n < 1 := NodeTable.node_lt hx
  exact absurd (Nat.lt_one_iff.mp hlt) hn

/-- A disk with a directory `"A"` that holds a file `"B"`. -/
def diskAB : MemDisk :=
  ⟨[MemDisk.dirEntry 0 [65] 1, { MemDisk.dirEntry 1 [66] 2 with isDir := false }], 3⟩

/-- The directories of that disk, as a tree. -/
def treeAB : DirTree :=
  diskAB.dirTree (by unfold DirEntry.own; decide) (by decide)

/-- The path `"a/../a/b"` is walked to the file, in any case of its letters. -/
theorem path_walk_file :
    ∃ err v' ds',
      (∀ fuel, 8 < fuel →
        fatfsFind memDirs tableCache fuel (mounted diskAB 0).toVolume
          (initDirsearch 0 none [97, 47, 46, 46, 47, 97, 47, 98]) = some (err, v', ds')) ∧
      Meets tableCache v' ds' err (.found (.file 1 [98])) := by
  have hwalk : treeAB.walk (.dir 0) ([97, 47, 46, 46, 47, 97, 47, 98].splitOn 47)
      = .found (.file 1 [98]) := by decide
  rw [← hwalk]
  refine (path_walk tableCache_laws tableCache_alloc treeAB (mounted diskAB 0).toVolume
    (fun e _ => ⟨rfl, rfl⟩) (mounted_agrees diskAB _ _) none ⟨rootEntry, 1⟩ rfl rfl
    [97, 47, 46, 46, 47, 97, 47, 98]).mpr fun p hp => ⟨?_, fun ⟨_, hnone⟩ => nomatch hnone⟩
  have hshort : ∀ p ∈ treeAB.lookups (.dir 0) ([97, 47, 46, 46, 47, 97, 47, 98].splitOn 47),
      p.2.length < 2 ^ 7 := by decide
  exact hshort p hp

/-- A path to nowhere: a component of 256 letters `"a"`, and a separator. -/
def longPath : List UInt8 := List.replicate 256 97 ++ [47]

/-- On that path, in the root directory, `fatfs_find` does not end, although the walk ends. -/
theorem path_never_ends :
    Reads memDirs diskAB treeAB ∧ Agrees tableCache treeAB (mounted diskAB 0).toVolume ∧
      (∀ fuel, fatfsFind memDirs tableCache fuel (mounted diskAB 0).toVolume
        (initDirsearch 0 none longPath) = none) ∧
      treeAB.walk (.dir 0) (longPath.splitOn 47) = .noEntry 0 (List.replicate 256 97) false := by
  refine ⟨fun e _ => ⟨rfl, rfl⟩, mounted_agrees diskAB _ _, fun fuel => ?_, by decide +kernel⟩
  have hroot : tableCache.node (mounted diskAB 0).cache (initDirsearch 0 none longPath).dir
      = some ⟨rootEntry, 1⟩ := rfl
  exact findLoop_stuck hroot rfl rfl (by decide +kernel) (by decide +kernel) (by decide +kernel)

end Ecos.Fat
