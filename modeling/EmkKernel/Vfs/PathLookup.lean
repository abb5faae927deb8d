import EmkKernel.Vfs.Directories
import EmkKernel.Vfs.Paths

/-!
# A path is followed component by component

A tree of directories says what lies under each name of a directory and which directories
are completely discovered. The walk for `/` goes the way of the components, but confuses a
name that is not there with one that is not discovered yet; the walk for `\` looks for the
whole path in the root.
-/

namespace EmkKernel

/-! ## Links and separators -/

@[simp] theorem GfsLink.linkType_new (index : BitVec 32) (linkType : GfsType) :
    (GfsLink.new index linkType).linkType = .ok linkType := by
  have low : index.setWidth 64 >>> 32 = 0#64 := by
    apply BitVec.eq_of_toNat_eq
    rw [BitVec.toNat_ushiftRight, BitVec.toNat_setWidth, Nat.shiftRight_eq_div_pow]
    have below := index.isLt
    simp only [BitVec.toNat_ofNat]
    omega
  simp only [GfsLink.linkType, GfsLink.new, BitVec.ushiftRight_or_distrib, low, BitVec.zero_or]
  cases linkType <;> rfl

@[simp] theorem GfsLink.index_new (index : BitVec 32) (linkType : GfsType) :
    (GfsLink.new index linkType).index = index := by
  have high : (linkType.toU64 <<< 32).setWidth 32 = 0#32 := by cases linkType <;> rfl
  simp only [GfsLink.index, GfsLink.new, BitVec.setWidth_and, BitVec.setWidth_or, high,
    BitVec.or_zero]
  rw [BitVec.setWidth_setWidth_of_le _ (by decide), BitVec.setWidth_eq]
  exact BitVec.and_allOnes

/-- The path of a list of components. -/
def joinPath (separator : Byte) (names : List Text) : Text := [separator].intercalate names

private theorem splitTerminator_join {separator : Byte} {names : List Text}
    (apart : ∀ name ∈ names, separator ∉ name) (last : names.getLast? ≠ some []) :
    splitTerminator separator (joinPath separator names) = names := by
  cases names with
  | nil => rfl
  | cons name rest =>
    have split : (joinPath separator (name :: rest)).splitOn separator = name :: rest :=
      List.splitOn_intercalate separator apart (by simp)
    simp only [splitTerminator, split]
    rw [if_neg last]

/-- A path without the separator is one part. -/
theorem splitTerminator_whole {separator : Byte} {path : Text} (apart : separator ∉ path)
    (given : path ≠ []) : splitTerminator separator path = [path] := by
  have join : joinPath separator [path] = path := by simp [joinPath, List.intercalate]
  have split := @splitTerminator_join separator [path] (by simpa using apart) (by simpa using given)
  rwa [join] at split

/-- The components of a path in both forms: no separator lies in them, and the last one is
not empty. -/
structure Components (names : List Text) : Prop where
  slash : ∀ name ∈ names, slash ∉ name
  backslash : ∀ name ∈ names, backslash ∉ name
  last : names.getLast? ≠ some []

private theorem mem_joinPath {separator b : Byte} {names : List Text}
    (member : b ∈ joinPath separator names) :
    b = separator ∨ ∃ name ∈ names, b ∈ name := by
  induction names with
  | nil => simp [joinPath, List.intercalate] at member
  | cons name rest ih =>
    cases rest with
    | nil =>
      right
      exact ⟨name, List.mem_cons_self .., by simpa [joinPath, List.intercalate] using member⟩
    | cons next rest =>
      simp only [joinPath, List.intercalate_cons_cons, List.mem_append,
        List.mem_singleton] at member
      rcases member with (here | between) | later
      · exact Or.inr ⟨name, List.mem_cons_self .., here⟩
      · exact Or.inl between
      · exact (ih later).imp id fun ⟨name', member', inside⟩ =>
          ⟨name', List.mem_cons_of_mem _ member', inside⟩

private theorem joinPath_ne_nil {separator : Byte} {names : List Text} (given : names ≠ [])
    (last : names.getLast? ≠ some []) : joinPath separator names ≠ [] := by
  intro empty
  cases names with
  | nil => exact given rfl
  | cons name rest =>
    cases rest with
    | nil => exact last (by simpa [joinPath, List.intercalate] using empty)
    | cons next rest => simp [joinPath, List.intercalate_cons_cons] at empty

/-! ## Trees of directories -/

/-- What an entry of a directory leads to. -/
inductive TreeNode where
  | file (index : BitVec 32)
  | directory (index : BitVec 32)
  deriving DecidableEq, Repr

def TreeNode.link : TreeNode → GfsLink
  | .file index => .new index .file
  | .directory index => .new index .directory

/-- A tree: its directories, what lies under each name of a directory, and which
directories are completely discovered. -/
structure DirectoryTree where
  Exists : BitVec 32 → Prop
  entry : BitVec 32 → Text → Option TreeNode
  completed : BitVec 32 → Bool
  closed : ∀ {d name i}, Exists d → entry d name = some (.directory i) → Exists i

namespace DirectoryTree

variable (t : DirectoryTree)

/-- One component, looked up in what the previous ones led to. -/
def step : TreeNode → Text → Except GfsResult TreeNode
  | .file _, _ => .error .malformed
  | .directory d, name =>
    match t.entry d name with
    | some node => .ok node
    | none => .error (if t.completed d then .notFound else .discoveryPossible)

/-- What a list of components leads to. -/
def resolve (root : BitVec 32) (names : List Text) : Except GfsResult TreeNode :=
  names.foldlM t.step (.directory root)

/-- The directory in which a component is missing. -/
def missing (d : BitVec 32) : List Text → Option (BitVec 32)
  | [] => none
  | name :: rest =>
    match t.entry d name with
    | some (.directory d') => missing d' rest
    | some (.file _) => none
    | none => some d

private theorem resolve_file (index : BitVec 32) (names : List Text) :
    names.foldlM t.step (.file index) =
      if names = [] then .ok (.file index) else .error .malformed := by
  cases names <;> rfl

theorem resolve_cons (d : BitVec 32) (name : Text) (rest : List Text) :
    t.resolve d (name :: rest) =
      match t.entry d name with
      | some (.directory d') => t.resolve d' rest
      | some (.file index) => if rest = [] then .ok (.file index) else .error .malformed
      | none => .error (if t.completed d then .notFound else .discoveryPossible) := by
  simp only [resolve, List.foldlM_cons, step]
  cases t.entry d name with
  | none => rfl
  | some node =>
    cases node with
    | file index => exact t.resolve_file index rest
    | directory d' => rfl

variable {t}

theorem resolve_missing {d d' : BitVec 32} {names : List Text} (gap : t.missing d names = some d') :
    t.resolve d names = .error (if t.completed d' then .notFound else .discoveryPossible) := by
  induction names generalizing d with
  | nil => cases gap
  | cons name rest ih =>
    rw [resolve_cons]
    rw [missing] at gap
    revert gap
    cases t.entry d name with
    | none =>
      intro gap
      rw [← Option.some.inj gap]
    | some node =>
      cases node with
      | file index => exact nofun
      | directory next => exact ih

/-- Without a missing component the answer is a node, or says that a file is no directory. -/
theorem resolve_present {d : BitVec 32} {names : List Text} (present : t.missing d names = none) :
    (∃ node, t.resolve d names = .ok node) ∨ t.resolve d names = .error .malformed := by
  induction names generalizing d with
  | nil => exact Or.inl ⟨_, rfl⟩
  | cons name rest ih =>
    rw [resolve_cons]
    rw [missing] at present
    revert present
    cases t.entry d name with
    | none => exact nofun
    | some node =>
      cases node with
      | directory next => exact ih
      | file index =>
        intro _
        by_cases here : rest = []
        · exact Or.inl ⟨_, if_pos here⟩
        · exact Or.inr (if_neg here)

end DirectoryTree

/-! ## The walks -/

namespace GfsNamespace

variable {σ : Type}

/-- The directories of the file system are those of a tree. -/
structure Holds (store : StringStore σ) (gfs : GfsNamespace σ) (t : DirectoryTree) : Prop where
  lookup : ∀ d, t.Exists d → ∀ name,
    (gfs.directories d).entries.lookup store gfs.hashmapManager name =
      .ok ((t.entry d name).map TreeNode.link)
  completed : ∀ d, t.Exists d → (gfs.directories d).isCompleted = t.completed d

variable {store : StringStore σ} {gfs : GfsNamespace σ} {t : DirectoryTree}

/-- The answer of a walk: where a component is missing, the two reports are exchanged. -/
def answer (t : DirectoryTree) (d : BitVec 32) (names : List Text) : Except GfsResult GfsLink :=
  match t.missing d names with
  | some d' => .error (if t.completed d' then .discoveryPossible else .notFound)
  | none => (t.resolve d names).map TreeNode.link

theorem followParts_eq (holds : Holds store gfs t) {d : BitVec 32} (member : t.Exists d)
    (names : List Text) :
    gfs.followParts store (.new d .directory) (gfs.directories d) names =
      .ok (answer t d names) := by
  induction names generalizing d with
  | nil => rfl
  | cons name rest ih =>
    simp only [followParts, holds.lookup d member name, answer, DirectoryTree.missing,
      DirectoryTree.resolve_cons, bind, Except.bind]
    cases found : t.entry d name with
    | none =>
      simp only [Option.map_none, holds.completed d member]
      cases t.completed d <;> rfl
    | some node =>
      cases node with
      | file index =>
        simp only [Option.map_some, TreeNode.link, GfsLink.linkType_new]
        by_cases here : rest = []
        · simp only [here, ne_eq, not_true, if_false, if_true]
          rfl
        · simp only [here, ne_eq, not_false_eq_true, if_true, if_false]
          rfl
      | directory d' =>
        simp only [Option.map_some, TreeNode.link, GfsLink.linkType_new, GfsLink.index_new]
        exact ih (t.closed member found)

private theorem linGetLink_eq (holds : Holds store gfs t) (member : t.Exists gfs.linuxRoot)
    {names : List Text} (components : Components names) :
    gfs.linGetLink store (joinPath slash names) = .ok (answer t gfs.linuxRoot names) := by
  rw [linGetLink, splitTerminator_join components.slash components.last]
  exact followParts_eq holds member names

/-- The path of the components in the `\` form, looked up as one name. -/
def whole (names : List Text) : List Text :=
  if names = [] then [] else [joinPath backslash names]

private theorem winGetLink_eq (holds : Holds store gfs t) {root : BitVec 32}
    (member : t.Exists root) {names : List Text} (components : Components names) :
    gfs.winGetLink store root (joinPath backslash names) = .ok (answer t root (whole names)) := by
  have split : splitTerminator slash (joinPath backslash names) = whole names := by
    by_cases empty : names = []
    · rw [empty]
      rfl
    · rw [whole, if_neg empty]
      refine splitTerminator_whole (fun inside => ?_) (joinPath_ne_nil empty components.last)
      rcases mem_joinPath inside with same | ⟨name, member, inside⟩
      · exact absurd same (by decide)
      · exact components.slash name member inside
  rw [winGetLink, split]
  exact followParts_eq holds member _

/-- Both walks give what the components lead to. -/
structure FollowsLookups (store : StringStore σ) (gfs : GfsNamespace σ) (t : DirectoryTree)
    (root : BitVec 32) (names : List Text) : Prop where
  lin : gfs.linGetLink store (joinPath slash names) =
    .ok ((t.resolve gfs.linuxRoot names).map TreeNode.link)
  win : gfs.winGetLink store root (joinPath backslash names) =
    .ok ((t.resolve root names).map TreeNode.link)
  same : root = gfs.linuxRoot →
    gfs.winGetLink store root (joinPath backslash names) =
      gfs.linGetLink store (joinPath slash names)

/-- The path in the `\` form is the name of an entry of the root that leads where its
components lead; or there is no such entry, and the components lead to a directory without
the next one that is discovered when the root is not, or the other way round. -/
def Shortcut (t : DirectoryTree) (root : BitVec 32) (names : List Text) : Prop :=
  match t.entry root (joinPath backslash names) with
  | some node => t.resolve root names = .ok node
  | none => ∃ d, t.missing root names = some d ∧ t.completed d ≠ t.completed root

private theorem link_injective {node node' : TreeNode} (same : node.link = node'.link) :
    node = node' := by
  have types := congrArg GfsLink.linkType same
  have indices := congrArg GfsLink.index same
  cases node with
  | file i =>
    cases node' with
    | file i' =>
      simp only [TreeNode.link, GfsLink.index_new] at indices
      rw [indices]
    | directory i' => simp [TreeNode.link] at types
  | directory i =>
    cases node' with
    | file i' => simp [TreeNode.link] at types
    | directory i' =>
      simp only [TreeNode.link, GfsLink.index_new] at indices
      rw [indices]

private theorem map_link_eq_ok {result : Except GfsResult TreeNode} {node : TreeNode} :
    result.map TreeNode.link = .ok node.link ↔ result = .ok node := by
  constructor
  · intro same
    cases result with
    | error e => cases same
    | ok node' => rw [link_injective (Except.ok.inj same)]
  · intro same
    rw [same]
    rfl

private theorem map_link_eq_error {result : Except GfsResult TreeNode} {e : GfsResult} :
    result.map TreeNode.link = .error e ↔ result = .error e := by
  cases result <;> simp [Except.map]

private theorem answer_eq_iff {d : BitVec 32} {names : List Text} :
    answer t d names = (t.resolve d names).map TreeNode.link ↔ t.missing d names = none := by
  cases gap : t.missing d names with
  | none => simp [answer, gap]
  | some d' =>
    simp only [answer, gap, DirectoryTree.resolve_missing gap]
    cases t.completed d' <;> simp [Except.map]

private theorem answer_whole_iff {root : BitVec 32} {names : List Text} (given : names ≠ []) :
    answer t root (whole names) = (t.resolve root names).map TreeNode.link ↔
      Shortcut t root names := by
  simp only [whole, if_neg given, answer, DirectoryTree.missing, DirectoryTree.resolve_cons,
    Shortcut]
  cases t.entry root (joinPath backslash names) with
  | some node =>
    cases node with
    | file index => exact eq_comm.trans (@map_link_eq_ok _ (.file index))
    | directory index => exact eq_comm.trans (@map_link_eq_ok _ (.directory index))
  | none =>
    simp only
    rw [eq_comm, map_link_eq_error]
    cases gap : t.missing root names with
    | none =>
      rcases DirectoryTree.resolve_present gap with ⟨node, found⟩ | broken
      · simp [found]
      · rw [broken]
        cases t.completed root <;> simp
    | some d =>
      rw [DirectoryTree.resolve_missing gap]
      cases t.completed root <;> cases there : t.completed d <;> simp [there]

/-- Both walks follow the components exactly when none is missing for the walk for `/` and
the whole path is no worse than its components for the other. -/
theorem followsLookups_iff (holds : Holds store gfs t) (linux : t.Exists gfs.linuxRoot)
    {root : BitVec 32} (windows : t.Exists root) {names : List Text}
    (components : Components names) :
    FollowsLookups store gfs t root names ↔
      t.missing gfs.linuxRoot names = none ∧ (names = [] ∨ Shortcut t root names) := by
  have lin := linGetLink_eq holds linux components
  have win := winGetLink_eq holds windows components
  constructor
  · intro follows
    have linux := Except.ok.inj (lin.symm.trans follows.lin)
    have windows := Except.ok.inj (win.symm.trans follows.win)
    refine ⟨answer_eq_iff.1 linux, ?_⟩
    by_cases empty : names = []
    · exact Or.inl empty
    · exact Or.inr ((answer_whole_iff empty).1 windows)
  · rintro ⟨present, fits⟩
    have linux := lin.trans (congrArg Except.ok (answer_eq_iff.2 present))
    have windows : gfs.winGetLink store root (joinPath backslash names) =
        .ok ((t.resolve root names).map TreeNode.link) := by
      by_cases empty : names = []
      · rw [win, empty]
        rfl
      · exact win.trans (congrArg Except.ok ((answer_whole_iff empty).2 (fits.resolve_left empty)))
    exact ⟨linux, windows, fun same => by rw [windows, linux, same]⟩

end GfsNamespace

/-! ## Trees that were inserted -/

def TreeNode.ofLink (link : GfsLink) : Option TreeNode :=
  match link.linkType with
  | .ok .file => some (.file link.index)
  | .ok .directory => some (.directory link.index)
  | .error _ => none

@[simp] theorem TreeNode.ofLink_link (node : TreeNode) : TreeNode.ofLink node.link = some node := by
  cases node <;> simp [ofLink, link]

/-- The links that a request inserts. -/
def DirectoryRequest.Inserts (P : GfsLink → Prop) : DirectoryRequest → Prop
  | .allocate _ => True
  | .insert _ _ link => P link

instance (P : GfsLink → Prop) [DecidablePred P] : DecidablePred (DirectoryRequest.Inserts P)
  | .allocate _ => inferInstanceAs (Decidable True)
  | .insert _ _ link => inferInstanceAs (Decidable (P link))

/-- A request that meets the condition of the maps and inserts links of a kind. -/
def DirectoryRequest.MeetsOf {σ : Type} (Name : Text → Prop) (P : GfsLink → Prop)
    (s : Directories σ)
    (r : DirectoryRequest) : Prop :=
  s.Meets Name r ∧ r.Inserts P

instance {σ : Type} (Name : Text → Prop) [DecidablePred Name] (P : GfsLink → Prop) [DecidablePred P]
    (s : Directories σ) (r : DirectoryRequest) : Decidable (r.MeetsOf Name P s) :=
  inferInstanceAs (Decidable (_ ∧ _))

namespace Directories

variable {σ : Type} {store : StringStore σ} {pager : Pager} {Name : Text → Prop}
  {P : GfsLink → Prop} {s s' : Directories σ}

private theorem recorded_contents {d : Directory} {name name' : Text} {link link' : GfsLink}
    {outcome : GfsDirectoryHashmap.Outcome σ}
    (found : (recorded d name link outcome).contents name' = some link') :
    d.contents name' = some link' ∨ link' = link := by
  obtain ⟨result, map, manager⟩ := outcome
  cases result
  case success rehashed =>
    by_cases here : name' = name
    · rw [here] at found ⊢
      simp only [recorded, Function.update_self, Option.some.injEq] at found
      cases old : d.contents name with
      | none => exact Or.inr (by rw [← found, old]; rfl)
      | some first => exact Or.inl (by rw [← found, old]; rfl)
    · simp only [recorded, Function.update_of_ne here] at found
      exact Or.inl found
  all_goals exact Or.inl found

theorem contents_of_run (run : Requests.Run (serve store pager)
    (DirectoryRequest.MeetsOf Name P) s s')
    (start : ∀ d ∈ s.maps, ∀ name, ∀ link ∈ d.contents name, P link) :
    ∀ d ∈ s'.maps, ∀ name, ∀ link ∈ d.contents name, P link := by
  refine run.keeps (I := fun s => ∀ d ∈ s.maps, ∀ name, ∀ link ∈ d.contents name, P link) start ?_
  intro s r s' known meets served
  cases r with
  | allocate n =>
    rw [serve] at served
    split at served
    · cases served
      intro d member
      rcases List.mem_cons.1 member with rfl | old
      · intro _ _ absent
        cases absent
      · exact known d old
    · cases served
  | insert i name link =>
    rw [serve] at served
    split at served
    · cases served
    next d here =>
      split at served
      · cases served
        intro d' member name' link' found
        rcases List.mem_or_eq_of_mem_set member with old | rfl
        · exact known d' old name' link' found
        · rcases recorded_contents found with old | rfl
          · exact known d (List.mem_of_getElem? here) name' link' old
          · exact meets.2
      · cases served

end Directories

namespace GfsNamespace

variable {σ : Type} {store : StringStore σ} {gfs : GfsNamespace σ} {t : DirectoryTree}

/-- Directories with the maps of a run hold the tree of the links that were inserted. -/
theorem holds_of_findsLinks {Name : Text → Prop} {s : Directories σ}
    (finds : s.FindsLinks store Name) (manager : gfs.hashmapManager = s.manager)
    (links : ∀ d ∈ s.maps, ∀ name, ∀ link ∈ d.contents name, ∃ node : TreeNode, link = node.link)
    (maps : BitVec 32 → Directory)
    (filed : ∀ d, t.Exists d → maps d ∈ s.maps ∧ (gfs.directories d).entries = (maps d).map ∧
      (gfs.directories d).isCompleted = t.completed d ∧
      t.entry d = fun name => ((maps d).contents name).bind TreeNode.ofLink) :
    Holds store gfs t := by
  constructor
  · intro d member name
    obtain ⟨made, map, _, contents⟩ := filed d member
    rw [map, manager, finds.lookup _ made, contents]
    cases found : (maps d).contents name with
    | none => simp only [found, Option.bind_none, Option.map_none]
    | some link =>
      obtain ⟨node, rfl⟩ := links _ made name link found
      simp only [found, Option.bind_some, TreeNode.ofLink_link, Option.map_some]
  · intro d member
    exact (filed d member).2.2.1

/-! ## Two directories of the kernel's maps -/

/-- The links below: a directory and a file in it. -/
def NestedLink (link : GfsLink) : Prop := link = .new 1 .directory ∨ link = .new 5 .file

instance : DecidablePred NestedLink := fun _ => inferInstanceAs (Decidable (_ ∨ _))

/-- `a` in the newer map and `b` in the other one. -/
def nestedRun : List DirectoryRequest :=
  [.allocate 1, .allocate 1, .insert 0 [0x61] (.new 1 .directory), .insert 1 [0x62] (.new 5 .file)]

/-- The first directory is completely discovered, the other one is not. -/
def nestedNamespace (manager : GfsDirectoryHashmapManager GfsStringAllocator)
    (root sub : Directory) :
    GfsNamespace GfsStringAllocator :=
  ⟨manager, fun d => if d = 0 then ⟨root.map, 1⟩ else ⟨sub.map, 0⟩, 0⟩

def nestedTree (root sub : Directory)
    (links : ∀ d ∈ [root, sub], ∀ name, ∀ link ∈ d.contents name, NestedLink link) :
    DirectoryTree where
  Exists d := d = 0 ∨ d = 1
  entry d name := ((if d = 0 then root else sub).contents name).bind TreeNode.ofLink
  completed d := d = 0
  closed := by
    intro d name i _ found
    obtain ⟨link, stored, node⟩ := Option.bind_eq_some_iff.1 found
    have nested : NestedLink link := by
      by_cases first : d = 0
      · rw [if_pos first] at stored
        exact links root (by simp) name link stored
      · rw [if_neg first] at stored
        exact links sub (by simp) name link stored
    rcases nested with rfl | rfl
    · rw [show GfsLink.new 1 .directory = (TreeNode.directory 1).link from rfl,
        TreeNode.ofLink_link] at node
      cases node
      exact Or.inr rfl
    · rw [show GfsLink.new 5 .file = (TreeNode.file 5).link from rfl, TreeNode.ofLink_link] at node
      cases node

theorem nested_holds : ∃ (gfs : GfsNamespace GfsStringAllocator) (t : DirectoryTree),
    Holds (Directories.gfsStrings fun _ => 0) gfs t ∧ gfs.linuxRoot = 0 ∧ t.Exists 0 ∧
    t.completed 0 = true ∧
      t.entry 0 [0x61] = some (.directory 1) ∧ t.entry 1 [0x62] = some (.file 5) ∧
      t.entry 0 [0x61, 0x5C, 0x62] = none ∧ t.entry 0 [0x63] = none := by
  have served : (Directories.serveNew (DirectoryRequest.MeetsOf Directories.ShortName NestedLink)
      nestedRun).map
      (fun s => s.maps.map fun d => [[0x61], [0x62], [0x61, 0x5C, 0x62], [0x63]].map d.contents) =
      some [[some (.new 1 .directory), none, none, none],
        [none, some (.new 5 .file), none, none]] := by
    decide +kernel
  obtain ⟨s, served, contents⟩ := Option.map_eq_some_iff.mp served
  obtain ⟨manager, m, made, run⟩ := Directories.serveNew_run served
  have permitted : Requests.Run (Directories.serve (Directories.gfsStrings fun _ => 0)
      Pager.plainPager)
      (Directories.Meets Directories.ShortName) ⟨m, manager, []⟩ s := by
    refine Relation.ReflTransGen.mono ?_ _ _ run
    rintro _ _ ⟨r, meets, served⟩
    exact ⟨r, meets.1, served⟩
  have readsBack := Directories.gfsStrings_readsBack fun _ => 0
  obtain ⟨⟨_, _, _, books⟩, _⟩ := Directories.books_of_run readsBack made permitted
  have finds := books.findsLinks readsBack
  have links := Directories.contents_of_run run (by simp)
  obtain ⟨root, sub, maps⟩ : ∃ root sub, s.maps = [root, sub] :=
    List.length_eq_two.1 (by simpa using congrArg List.length contents)
  rw [maps] at contents links
  simp only [List.map_cons, List.map_nil, List.cons.injEq, and_true] at contents
  obtain ⟨⟨a, -, whole, c⟩, -, b, -⟩ := contents
  refine ⟨nestedNamespace s.manager root sub, nestedTree root sub links, ?_, rfl, Or.inl rfl, rfl,
    ?_, ?_, ?_, ?_⟩
  · refine holds_of_findsLinks finds rfl (fun d member name link found => ?_)
      (fun d => if d = 0 then root else sub) fun d exist => ?_
    · rcases links d (maps ▸ member) name link found with rfl | rfl
      · exact ⟨.directory 1, rfl⟩
      · exact ⟨.file 5, rfl⟩
    · rcases exist with rfl | rfl
      · refine ⟨by rw [maps]; simp, rfl, ?_, rfl⟩
        simp [nestedNamespace, nestedTree, GfsDirectory.isCompleted,
          gfsDirectoryCompletedPhysicalLookup]
      · refine ⟨by rw [maps]; simp, rfl, ?_, rfl⟩
        simp [nestedNamespace, nestedTree, GfsDirectory.isCompleted,
          gfsDirectoryCompletedPhysicalLookup]
  · simp only [nestedTree, if_true, a]
    rfl
  · have other : (1 : BitVec 32) ≠ 0 := by decide
    simp only [nestedTree, if_neg other, b]
    rfl
  · simp only [nestedTree, if_true, whole]
    rfl
  · simp only [nestedTree, if_true, c]
    rfl

/-- A directory of the root is found by both walks. -/
theorem followsLookups_nested : ∃ (gfs : GfsNamespace GfsStringAllocator) (t : DirectoryTree),
    Holds (Directories.gfsStrings fun _ => 0) gfs t ∧ t.entry 0 [0x61] = some (.directory 1) ∧
      FollowsLookups (Directories.gfsStrings fun _ => 0) gfs t 0 [[0x61]] := by
  obtain ⟨gfs, t, holds, linux, exist, _, a, _⟩ := nested_holds
  refine ⟨gfs, t, holds, a, (followsLookups_iff holds (by rw [linux]; exact exist) exist
    ⟨by decide, by decide, by decide⟩).2 ⟨?_, Or.inr ?_⟩⟩
  · simp only [linux, DirectoryTree.missing, a]
  · have path : joinPath backslash [[0x61]] = [0x61] := rfl
    simp only [Shortcut, path, a, DirectoryTree.resolve_cons]
    rfl

/-- In a completely discovered root, a name that is not there is reported as possibly there,
and so is `a\b`, whose components lead to a file. -/
theorem lookups_not_followed : ∃ (gfs : GfsNamespace GfsStringAllocator) (t : DirectoryTree),
    Holds (Directories.gfsStrings fun _ => 0) gfs t ∧ t.completed gfs.linuxRoot = true ∧
      ¬FollowsLookups (Directories.gfsStrings fun _ => 0) gfs t gfs.linuxRoot [[0x63]] ∧
      t.resolve gfs.linuxRoot [[0x61], [0x62]] = .ok (.file 5) ∧
      ¬FollowsLookups (Directories.gfsStrings fun _ => 0) gfs t gfs.linuxRoot [[0x61], [0x62]] := by
  obtain ⟨gfs, t, holds, linux, exist, complete, a, b, whole, c⟩ := nested_holds
  have resolved : t.resolve 0 [[0x61], [0x62]] = .ok (.file 5) := by
    simp only [DirectoryTree.resolve_cons, a, b]
    rfl
  refine ⟨gfs, t, holds, by rw [linux, complete], fun follows => ?_, by rw [linux, resolved],
    fun follows => ?_⟩
  · have components : Components [[0x63]] := ⟨by decide, by decide, by decide⟩
    have lin := linGetLink_eq holds (by rw [linux]; exact exist) components
    have same := lin.symm.trans follows.lin
    simp only [linux, answer, DirectoryTree.missing, DirectoryTree.resolve_cons, c,
      complete] at same
    cases same
  · have components : Components [[0x61], [0x62]] := ⟨by decide, by decide, by decide⟩
    have win := winGetLink_eq holds exist components
    have same := win.symm.trans (linux ▸ follows.win)
    have path : joinPath backslash [[0x61], [0x62]] = [0x61, 0x5C, 0x62] := rfl
    rw [resolved, GfsNamespace.whole, if_neg (by decide), path] at same
    simp only [answer, DirectoryTree.missing, whole, complete] at same
    cases same

end GfsNamespace

end EmkKernel
