import EmkKernel.Vfs.PathLookup

/-!
# Files by path

`get_file_mut` and `win_get_file_mut`, which cut a path into the letter of a drive, `:\`
and a path inside the drive. The index arithmetic on the letter and the bytes behind it
needs a letter and two more bytes; the walk inside the drive splits at `/` although the
path has passed a check for `\`.
-/

namespace EmkKernel

def colon : Byte := 0x3A

def toLowercase (byte : Byte) : Byte :=
  if 0x41 ≤ byte ∧ byte ≤ 0x5A then byte + 0x20 else byte

/-- The results of `GfsResult` that an access to a file gives: those of the walk, and two
of its own. -/
inductive GfsFileResult where
  | invalidLength
  | mismatchedType
  | walk (e : GfsResult)
  deriving DecidableEq, Repr

structure GfsNtfsRoot where
  directoryIndex : BitVec 32

/-- The parts of `GeneralFileSystem` that an access by path uses: `initialize` makes the
roots a slice of 26. -/
structure GfsDrives (σ : Type) extends GfsNamespace σ where
  ntfsRoots : List (Option GfsNtfsRoot)
  letters : ntfsRoots.length = 26

/-- `path.as_bytes()[i]`. -/
def byteOf (path : Text) (i : Nat) : Except Stop Byte :=
  match path[i]? with
  | some byte => .ok byte
  | none => .error .panic

namespace GfsDrives

variable {σ : Type}

/-- The link that the walk ends at, as the result of the access: the index of a file. -/
def fileOf : Except GfsResult GfsLink → Except Stop (Except GfsFileResult (BitVec 32))
  | .error e => .ok (.error (.walk e))
  | .ok link => do
    match ← link.linkType with
    | .file => pure (.ok link.index)
    | .directory => pure (.error .mismatchedType)

/-- The access below a root. A character that starts behind `\` makes `path[3..]` whole. -/
def fileBelow (store : StringStore σ) (gfs : GfsDrives σ) (root : GfsNtfsRoot) (path : Text) :
    Except Stop (Except GfsFileResult (BitVec 32)) := do
  -- the second comparison is made only when the first one fails
  if (← byteOf path 1) ≠ colon then pure (.error (.walk .malformed))
  else if (← byteOf path 2) ≠ backslash then pure (.error (.walk .malformed))
  else fileOf (← gfs.winGetLink store root.directoryIndex (path.drop 3))

/-- `win_get_file_mut`; a file stands for its index. -/
def winGetFileMut (store : StringStore σ) (gfs : GfsDrives σ) (path : Text) :
    Except Stop (Except GfsFileResult (BitVec 32)) := do
  if path.length > 0x1000 ∨ path.length = 0 then pure (.error .invalidLength)
  else
    let letter := toLowercase (← byteOf path 0)
    -- the difference is of two `u8`
    if letter < 0x61 then throw .panic
    else
      match gfs.ntfsRoots[(letter - 0x61).toNat]? with
      | none => throw .panic
      | some none => pure (.error (.walk .notFound))
      | some (some root) => gfs.fileBelow store root path

/-- `get_file_mut`. -/
def getFileMut (store : StringStore σ) (gfs : GfsDrives σ) (path : Text) :
    Except Stop (Except GfsFileResult (BitVec 32)) := do
  if (← byteOf path 0) = slash then throw .panic
  else gfs.winGetFileMut store path

/-! ## What a path denotes -/

/-- The number of a drive; its letter may be of either case. -/
def driveNumber (letter : Byte) : Option Nat :=
  if 0x61 ≤ letter.toNat ∧ letter.toNat < 0x61 + 26 then some (letter.toNat - 0x61)
  else if 0x41 ≤ letter.toNat ∧ letter.toNat < 0x41 + 26 then some (letter.toNat - 0x41)
  else none

/-- The file that the components of a path lead to, from the root of its drive. -/
def Denotes (gfs : GfsDrives σ) (t : DirectoryTree) (path : Text) (index : BitVec 32) : Prop :=
  ∃ letter rest d root, path = letter :: colon :: backslash :: rest ∧
    driveNumber letter = some d ∧ gfs.ntfsRoots[d]? = some (some root) ∧
    t.resolve root.directoryIndex (splitTerminator backslash rest) = .ok (.file index)

/-- A result is given, and a file only when the path denotes it. -/
def Answers (gfs : GfsDrives σ) (t : DirectoryTree) (path : Text)
    (access : Except Stop (Except GfsFileResult (BitVec 32))) : Prop :=
  ∃ result, access = .ok result ∧ ∀ index, result = .ok index → gfs.Denotes t path index

/-- Both functions answer. -/
structure FindsFiles (store : StringStore σ) (gfs : GfsDrives σ) (t : DirectoryTree)
    (path : Text) : Prop where
  getFileMut : gfs.Answers t path (gfs.getFileMut store path)
  winGetFileMut : gfs.Answers t path (gfs.winGetFileMut store path)

/-- The file that the parts between `/` lead to, if any, is the one that the parts between
`\` lead to. -/
def SameFile (t : DirectoryTree) (root : GfsNtfsRoot) (rest : Text) : Prop :=
  ∀ index, t.resolve root.directoryIndex (splitTerminator slash rest) = .ok (.file index) →
    t.resolve root.directoryIndex (splitTerminator backslash rest) = .ok (.file index)

/-- What may lie behind the letter of a drive that has a root. -/
def Behind (t : DirectoryTree) (root : GfsNtfsRoot) : Text → Prop
  | [] => False
  | [byte] => byte ≠ colon
  | first :: second :: rest => first = colon → second = backslash → SameFile t root rest

/-- The paths that can be asked for: overlong ones, and those that start with the letter of
a drive which has no root or fits what lies behind the letter. -/
def Accessible (gfs : GfsDrives σ) (t : DirectoryTree) : Text → Prop
  | [] => False
  | letter :: behind => behind.length < 0x1000 →
    ∃ d, driveNumber letter = some d ∧
      ∀ root, gfs.ntfsRoots[d]? = some (some root) → Behind t root behind

/-! ## The accesses -/

private theorem driveNumber_lt {letter : Byte} {d : Nat} (drive : driveNumber letter = some d) :
    d < 26 := by
  simp only [driveNumber] at drive
  split at drive
  · cases drive
    omega
  · split at drive
    · cases drive
      omega
    · cases drive

/-- The index that is computed from a letter, and no other, is below 26. -/
theorem driveNumber_eq (letter : Byte) :
    driveNumber letter =
      if toLowercase letter < 0x61 then none
      else if (toLowercase letter - 0x61).toNat < 26 then some (toLowercase letter - 0x61).toNat
      else none := by
  revert letter
  decide

variable {store : StringStore σ} {gfs : GfsDrives σ} {t : DirectoryTree}

private theorem Denotes.of_root {letter : Byte} {rest : Text} {d : Nat} {root : GfsNtfsRoot}
    {index : BitVec 32} (drive : driveNumber letter = some d)
    (there : gfs.ntfsRoots[d]? = some (some root)) :
    gfs.Denotes t (letter :: colon :: backslash :: rest) index ↔
      t.resolve root.directoryIndex (splitTerminator backslash rest) = .ok (.file index) := by
  constructor
  · rintro ⟨letter', rest', d', root', path, drive', there', found⟩
    cases path
    cases drive.symm.trans drive'
    cases there.symm.trans there'
    exact found
  · intro found
    exact ⟨letter, rest, d, root, rfl, drive, there, found⟩

/-- The walk below a root gives a file exactly when the parts between `/` lead to it. -/
theorem fileOf_answer (root : BitVec 32) (names : List Text) :
    ∃ result, fileOf (GfsNamespace.answer t root names) = .ok result ∧
      ∀ index, result = .ok index ↔ t.resolve root names = .ok (.file index) := by
  cases gap : t.missing root names with
  | some d =>
    simp only [GfsNamespace.answer, gap, DirectoryTree.resolve_missing gap]
    exact ⟨_, rfl, fun index => by simp⟩
  | none =>
    simp only [GfsNamespace.answer, gap]
    cases t.resolve root names with
    | error e => exact ⟨_, rfl, fun index => by simp⟩
    | ok node =>
      cases node with
      | file found =>
        refine ⟨.ok found, ?_, fun index => by simp⟩
        simp only [Except.map, TreeNode.link, fileOf, GfsLink.linkType_new, GfsLink.index_new]
        rfl
      | directory found =>
        refine ⟨.error .mismatchedType, ?_, fun index => by simp⟩
        simp only [Except.map, TreeNode.link, fileOf, GfsLink.linkType_new]
        rfl

/-- A panic and a path with another prefix than `:\` give no file. -/
theorem not_answers_panic {path : Text} : ¬gfs.Answers t path (.error .panic) := by
  rintro ⟨result, same, _⟩
  cases same

private theorem answers_error {path : Text} (e : GfsFileResult) :
    gfs.Answers t path (.ok (.error e)) :=
  ⟨.error e, rfl, fun _ => nofun⟩

theorem fileBelow_eq (holds : GfsNamespace.Holds store gfs.toGfsNamespace t) (letter : Byte)
    (rest : Text) {root : GfsNtfsRoot} (member : t.Exists root.directoryIndex) :
    gfs.fileBelow store root (letter :: colon :: backslash :: rest) =
      fileOf (GfsNamespace.answer t root.directoryIndex (splitTerminator slash rest)) := by
  have walk := GfsNamespace.followParts_eq holds member (splitTerminator slash rest)
  simp only [fileBelow, byteOf, List.getElem?_cons_succ, List.getElem?_cons_zero, bind, Except.bind,
    ne_eq, not_true_eq_false, if_false, GfsNamespace.winGetLink, List.drop_succ_cons,
    List.drop_zero, walk]

private theorem answers_fileBelow_iff (holds : GfsNamespace.Holds store gfs.toGfsNamespace t)
    {letter : Byte} {behind : Text} {d : Nat} {root : GfsNtfsRoot}
    (drive : driveNumber letter = some d) (there : gfs.ntfsRoots[d]? = some (some root))
    (member : t.Exists root.directoryIndex) :
    gfs.Answers t (letter :: behind) (gfs.fileBelow store root (letter :: behind)) ↔
      Behind t root behind := by
  match behind with
  | [] => exact iff_of_false not_answers_panic id
  | [byte] =>
    simp only [fileBelow, byteOf, List.getElem?_cons_succ, List.getElem?_cons_zero,
      List.getElem?_nil, bind, Except.bind, Behind]
    by_cases here : byte = colon
    · rw [if_neg (not_not_intro here)]
      exact iff_of_false not_answers_panic (not_not_intro here)
    · rw [if_pos here]
      exact iff_of_true (answers_error _) here
  | first :: second :: rest =>
    by_cases one : first = colon
    · by_cases two : second = backslash
      · subst one two
        obtain ⟨result, answered, file⟩ := @fileOf_answer t root.directoryIndex
          (splitTerminator slash rest)
        rw [fileBelow_eq holds letter rest member, answered]
        constructor
        · rintro ⟨_, same, denoted⟩ _ _ index found
          cases same
          exact (Denotes.of_root drive there).1 (denoted index ((file index).2 found))
        · intro same
          refine ⟨result, rfl, fun index found => ?_⟩
          exact (Denotes.of_root drive there).2 (same rfl rfl index ((file index).1 found))
      · simp only [fileBelow, byteOf, List.getElem?_cons_succ, List.getElem?_cons_zero, bind,
          Except.bind, if_neg (not_not_intro one), if_pos two]
        exact iff_of_true (answers_error _) fun _ same => absurd same two
    · simp only [fileBelow, byteOf, List.getElem?_cons_succ, List.getElem?_cons_zero, bind,
        Except.bind, if_pos one]
      exact iff_of_true (answers_error _) fun same => absurd same one

/-- The letter of a path that is not too long: no drive, a drive without a root, or a root. -/
theorem winGetFileMut_cons (letter : Byte) {behind : Text} (short : behind.length < 0x1000) :
    gfs.winGetFileMut store (letter :: behind) =
      match driveNumber letter with
      | none => .error .panic
      | some d =>
        match gfs.ntfsRoots[d]? with
        | none => .error .panic
        | some none => .ok (.error (.walk .notFound))
        | some (some root) => gfs.fileBelow store root (letter :: behind) := by
  have fits : ¬((letter :: behind).length > 0x1000 ∨ (letter :: behind).length = 0) := by
    rw [List.length_cons]
    omega
  simp only [winGetFileMut, if_neg fits, byteOf, List.getElem?_cons_zero, bind, Except.bind,
    driveNumber_eq letter]
  by_cases low : toLowercase letter < 0x61
  · rw [if_pos low, if_pos low]
    rfl
  rw [if_neg low, if_neg low]
  by_cases inside : (toLowercase letter - 0x61).toNat < 26
  · rw [if_pos inside]
    rfl
  · have outside : gfs.ntfsRoots[(toLowercase letter - 0x61).toNat]? = none := by
      rw [List.getElem?_eq_none_iff, gfs.letters]
      exact Nat.le_of_not_lt inside
    rw [if_neg inside, outside]
    rfl

/-- `win_get_file_mut` answers the empty path, and any other one that can be asked for. -/
theorem answers_winGetFileMut_iff (holds : GfsNamespace.Holds store gfs.toGfsNamespace t)
    (roots : ∀ root, some root ∈ gfs.ntfsRoots → t.Exists root.directoryIndex) (path : Text) :
    gfs.Answers t path (gfs.winGetFileMut store path) ↔ path = [] ∨ gfs.Accessible t path := by
  cases path with
  | nil => exact iff_of_true (answers_error _) (Or.inl rfl)
  | cons letter behind =>
    rw [or_iff_right (List.cons_ne_nil _ _)]
    by_cases short : behind.length < 0x1000
    · rw [winGetFileMut_cons letter short, Accessible]
      cases drive : driveNumber letter with
      | none =>
        refine iff_of_false not_answers_panic fun accessible => ?_
        obtain ⟨d, number, _⟩ := accessible short
        cases number
      | some d =>
        -- the number of a drive is a place in the slice
        have bound : d < gfs.ntfsRoots.length := by
          rw [gfs.letters]
          exact driveNumber_lt drive
        have slot := List.getElem?_eq_getElem bound
        simp only [slot, Option.some.injEq, exists_eq_left', short, true_imp_iff]
        cases there : gfs.ntfsRoots[d] with
        | none => exact iff_of_true (answers_error _) fun _ same => nomatch same
        | some root =>
          have exist := roots root (there ▸ List.getElem_mem bound)
          simp only [Option.some.injEq, forall_eq']
          exact answers_fileBelow_iff holds drive (slot.trans (congrArg some there)) exist
    · have long : (letter :: behind).length > 0x1000 := by
        rw [List.length_cons]
        omega
      rw [winGetFileMut, if_pos (Or.inl long)]
      exact iff_of_true (answers_error _) fun fits => absurd fits short

/-- `get_file_mut` has no answer to the empty path. -/
theorem getFileMut_cons {letter : Byte} (behind : Text) (other : letter ≠ slash) :
    gfs.getFileMut store (letter :: behind) = gfs.winGetFileMut store (letter :: behind) := by
  simp only [getFileMut, byteOf, List.getElem?_cons_zero, bind, Except.bind, if_neg other]

/-- Both functions answer exactly the paths that can be asked for. -/
theorem findsFiles_iff (holds : GfsNamespace.Holds store gfs.toGfsNamespace t)
    (roots : ∀ root, some root ∈ gfs.ntfsRoots → t.Exists root.directoryIndex) {path : Text}
    (other : path.head? ≠ some slash) :
    gfs.FindsFiles store t path ↔ gfs.Accessible t path := by
  have windows := answers_winGetFileMut_iff holds roots path
  cases path with
  | nil => exact iff_of_false (fun finds => not_answers_panic finds.getFileMut) id
  | cons letter behind =>
    rw [or_iff_right (List.cons_ne_nil _ _)] at windows
    have same := @getFileMut_cons σ store gfs letter behind fun here => other (congrArg some here)
    constructor
    · intro finds
      exact windows.1 finds.winGetFileMut
    · intro accessible
      have answered := windows.2 accessible
      exact ⟨same ▸ answered, answered⟩

/-! ## The nested directories as drives -/

/-- `c:` is the outer directory of the nested ones and `d:` the inner one. -/
def nestedDrives (gfs : GfsNamespace GfsStringAllocator) : GfsDrives GfsStringAllocator :=
  ⟨gfs, [none, none, some ⟨0⟩, some ⟨1⟩] ++ List.replicate 22 none, rfl⟩

private theorem nestedDrives_roots {gfs : GfsNamespace GfsStringAllocator} (outer : t.Exists 0)
    (inner : t.Exists 1) :
    ∀ root, some root ∈ (nestedDrives gfs).ntfsRoots → t.Exists root.directoryIndex := by
  intro root member
  simp only [nestedDrives, List.mem_append, List.mem_cons, List.mem_replicate, Option.some.injEq,
    List.not_mem_nil, reduceCtorEq, and_false, or_false, false_or] at member
  rcases member with rfl | rfl
  · exact outer
  · exact inner

/-- `D:\b` is answered with the file there. -/
theorem findsFiles_nested : ∃ (gfs : GfsDrives GfsStringAllocator) (t : DirectoryTree),
    gfs.FindsFiles (Directories.gfsStrings fun _ => 0) t [0x44, 0x3A, 0x5C, 0x62] ∧
      gfs.Denotes t [0x44, 0x3A, 0x5C, 0x62] 5 := by
  obtain ⟨gfs, t, holds, -, outer, -, a, b, -⟩ := GfsNamespace.nested_holds
  have inner : t.Exists 1 := t.closed outer a
  have found : t.resolve 1 [[0x62]] = .ok (.file 5) := by
    rw [DirectoryTree.resolve_cons, b]
    rfl
  have parts (separator : Byte) (other : separator ∉ [(0x62 : Byte)]) :
      splitTerminator separator [0x62] = [[0x62]] := splitTerminator_whole other nofun
  refine ⟨nestedDrives gfs, t, (findsFiles_iff holds (nestedDrives_roots outer inner)
    (by decide)).2 fun _ => ⟨3, by decide, ?_⟩, 0x44, [0x62], 3, ⟨1⟩, rfl, by decide, rfl, ?_⟩
  · rintro root same - - index file
    cases same
    rwa [parts slash (by decide), ← parts backslash (by decide)] at file
  · rw [parts backslash (by decide)]
    exact found

/-- The empty path, a first character that is no letter and a letter alone end in a panic. -/
theorem not_findsFiles_short : ∃ (gfs : GfsDrives GfsStringAllocator) (t : DirectoryTree),
    GfsNamespace.Holds (Directories.gfsStrings fun _ => 0) gfs.toGfsNamespace t ∧
      gfs.getFileMut (Directories.gfsStrings fun _ => 0) [] = .error .panic ∧
      ∀ path ∈ [[], [0x31], [0x63]],
        ¬gfs.FindsFiles (Directories.gfsStrings fun _ => 0) t path := by
  obtain ⟨gfs, t, holds, -, outer, -, a, -⟩ := GfsNamespace.nested_holds
  refine ⟨nestedDrives gfs, t, holds, rfl, fun path member finds => ?_⟩
  have answered := finds.getFileMut
  simp only [List.mem_cons, List.not_mem_nil, or_false] at member
  rcases member with rfl | rfl | rfl <;> exact not_answers_panic answered

end GfsDrives

end EmkKernel
