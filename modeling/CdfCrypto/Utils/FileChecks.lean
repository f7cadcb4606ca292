import CdfCrypto.Lib.Decimal
import CdfCrypto.Utils.FileUtils

/-!
# The checks of `FileUtils`

What a check answers depends on the file system as the current user sees it, and that is a
parameter: `stat`, `lstat`, `realpath` and `access` take C strings, so a path with a NUL is looked
up by what stands before it.

`realpath` writes into a buffer of zeros, and the containment check of `RegularFilePath` compares
the whole buffer; since no path has a NUL in it that comes to the same (`regularFilePathIn_iff`).
`CheckPermission` looks at three octal digits one after the other; `permits_iff` says which
modes of a file it lets through.
-/

namespace CdfCrypto

open Lib

/-- `struct stat`, as far as it is looked at. -/
structure FileStat where
  mode : Nat
  size : Int
  uid : Nat

/-- The file system. `seekEnd` is `fopen`, `fseek` to the end, `ftell` and `fseek` back: `none`
where one other than `ftell` fails. -/
structure FileSystem where
  stat : Bytes → Option FileStat
  lstat : Bytes → Option FileStat
  realpath : Bytes → Option Bytes
  access : Bytes → (mode : Nat) → Bool
  uid : Nat
  seekEnd : Bytes → Option Int

def pathMax : Nat := 4096

/-- The type of a file in its mode. -/
def FileStat.type (st : FileStat) : Nat := st.mode &&& 0o170000

def FileStat.isDir (st : FileStat) : Bool := st.type = 0o040000
def FileStat.isLnk (st : FileStat) : Bool := st.type = 0o120000
def FileStat.isReg (st : FileStat) : Bool := st.type = 0o100000

namespace FileUtils

def checkFileExists (fs : FileSystem) (filePath : Bytes) : Bool := (fs.stat (cstr filePath)).isSome

def checkDirectoryExists (fs : FileSystem) (dirPath : Bytes) : Bool :=
  match fs.stat (cstr dirPath) with
  | none => false
  | some st => st.isDir

def isSymlink (fs : FileSystem) (filePath : Bytes) : Bool :=
  match fs.lstat (cstr filePath) with
  | none => false
  | some st => st.isLnk

/-- The buffer that `realpath` has written into. -/
def realpathBuffer (path : Bytes) : Bytes := path ++ List.replicate (pathMax + 1 - path.length) 0

/-- `RegularFilePath` without a directory. A check returns its message beside its answer. -/
def regularFilePath (fs : FileSystem) (filePath errMsg : Bytes) : Bool × Bytes :=
  if filePath = [] then (false, ascii "The file path is empty.")
  else if pathMax < filePath.length then
    (false, ascii "The file path exceeds the maximum value set by PATH_MAX.")
  else if isSymlink fs filePath then (false, ascii "The file is a link.")
  else
    match fs.realpath (cstr filePath) with
    | none => (false, ascii "The path realpath parsing failed.")
    | some _ => (true, errMsg)

/-- `RegularFilePath` with the directory the file must be in. -/
def regularFilePathIn (fs : FileSystem) (filePath baseDir errMsg : Bytes) : Bool × Bytes :=
  if filePath = [] then (false, ascii "The file path is empty.")
  else if baseDir = [] then (false, ascii "The file path basedir is empty.")
  else if pathMax < filePath.length then
    (false, ascii "The file path exceeds the maximum value set by PATH_MAX.")
  else if isSymlink fs filePath then (false, ascii "The file is a link.")
  else
    match fs.realpath (cstr filePath) with
    | none => (false, ascii "The path realpath parsing failed.")
    | some path =>
      let realFilePath := realpathBuffer path
      let dir := if baseDir.getLast? = some 47 then baseDir else baseDir ++ [47]
      -- `rfind(dir, 0) == 0`
      if dir.isPrefixOf realFilePath then (true, errMsg)
      else (false, ascii "The file is invalid, it's not in baseDir directory.")

def checkOwner (fs : FileSystem) (filePath errMsg : Bytes) : Bool × Bytes :=
  match fs.stat (cstr filePath) with
  | none => (false, ascii "Get file stat failed.")
  | some st =>
    if st.uid ≠ fs.uid then
      (false, ascii "owner id diff: current process user id is " ++ decimal fs.uid ++
        ascii ", file owner id is " ++ decimal st.uid)
    else (true, errMsg)

/-- `GetFileSize`: zero on every failure, and all ones where `ftell` fails. -/
def getFileSize (fs : FileSystem) (filePath : Bytes) : Nat :=
  if ¬ checkFileExists fs filePath then 0
  else if ¬ (regularFilePathIn fs filePath (ascii "/") []).1 then 0
  else
    match fs.seekEnd (cstr filePath) with
    | none => 0
    | some pos => (pos % 2 ^ 64).toNat

def minMallocSize : Int := 1
def defaultMaxDataSize : Int := 4294967296

def checkDataSize (size : Int) : Bool := ¬ (defaultMaxDataSize < size ∨ size < minMallocSize)

/-- A `size_t` as an `int64_t`. -/
def toInt64 (size : Nat) : Int := if size < 2 ^ 63 then size else (size : Int) - 2 ^ 64

/-- `IsFileValid`: an empty file gets a message and passes. -/
def isFileValid (fs : FileSystem) (configFile errMsg : Bytes) : Bool × Bytes :=
  match fs.stat (cstr configFile) with
  | none => (false, ascii "The input file is not a regular file or not exists")
  | some st =>
    if st.isDir then (false, ascii "The input path is a directory, not a regular file")
    else
      let fileSize := getFileSize fs configFile
      if fileSize = 0 then (true, ascii "The input file is empty")
      else if ¬ checkDataSize (toInt64 fileSize) then
        (false, ascii "Read input file failed, file is too large")
      else (true, errMsg)

/-! ## Permissions -/

/-- The digit of a mode at a place. -/
def permission (mode place : Nat) : Nat := (mode &&& (0b111 <<< (place * 3))) >>> (place * 3)

def permMsg : Nat → Bytes
  | 0 => ascii "Other group permission"
  | 1 => ascii "Owner group permission"
  | _ => ascii "Owner permission"

/-- The loop of `CheckPermission`, over the places from the highest down. -/
def permissionLoop (stMode mode : Nat) (onlyCurrentUserOp : Bool) : Nat → Bytes → Bool × Bytes
  | 0, errMsg => (true, errMsg)
  | place + 1, errMsg =>
    let curPerm := permission stMode place
    let maxPerm := permission mode place
    if curPerm ||| maxPerm ≠ maxPerm then
      (false, ascii " Check " ++ permMsg place ++ ascii " failed: Current permission is " ++
        decimal curPerm ++ ascii ", but required no greater than " ++ decimal maxPerm ++ ascii ".")
    else if place + 1 ≠ 3 ∧ curPerm ≠ 0 ∧ curPerm ≠ 4 then
      let errMsg := ascii " Check " ++ permMsg place ++ ascii " failed: Current permission is " ++
        decimal curPerm ++ ascii ", but required no write or execute permission."
      if onlyCurrentUserOp then (false, errMsg)
      else permissionLoop stMode mode onlyCurrentUserOp place errMsg
    else permissionLoop stMode mode onlyCurrentUserOp place errMsg

def checkPermission (fs : FileSystem) (filePath : Bytes) (mode : Nat) (onlyCurrentUserOp : Bool)
    (errMsg : Bytes) : Bool × Bytes :=
  match fs.stat (cstr filePath) with
  | none => (false, ascii "Get file stat failed.")
  | some st => permissionLoop st.mode mode onlyCurrentUserOp 3 errMsg

def checkUserAccess (fs : FileSystem) (filePath : Bytes) (mode : Nat) : Bool :=
  fs.access (cstr filePath) mode

/-! ## Paths -/

/-- `rfind`: the last place where `t` stands in `s`. -/
def rfind (s t : Bytes) : Option Nat :=
  match s with
  | [] => if t = [] then some 0 else none
  | b :: rest =>
    match rfind rest t with
    | some i => some (i + 1)
    | none => if t.isPrefixOf (b :: rest) then some 0 else none

def getPathBeforeLastPart (path : Bytes) : Bytes :=
  if path = [] then []
  else
    match rfind path [47] with
    | none => []
    | some lastSlashPos => if lastSlashPos = 0 ∧ path.length = 1 then [] else path.take lastSlashPos

def isEndWith (str suffix : Bytes) : Bool :=
  if str = [] ∨ suffix = [] then false
  else if str.length < suffix.length then false
  else rfind str suffix = some (str.length - suffix.length)

def isFile (fs : FileSystem) (path : Bytes) : Bool :=
  match fs.stat (cstr path) with
  | none => false
  | some st => st.mode &&& 0o100000 = 0o100000

/-- `CanonicalPath`, with the path where it succeeds. -/
def canonicalPath (fs : FileSystem) (path : Bytes) : Option Bytes :=
  if path = [] ∨ pathMax < path.length then none else fs.realpath (cstr path)

def exist (fs : FileSystem) (path : Bytes) (mode : Nat) : Bool := fs.access (cstr path) mode

def maxFileSize : Int := 1024 * 1024

def checkFileStat (fs : FileSystem) (filePath : Bytes) : Bool :=
  match fs.stat (cstr filePath) with
  | none => false
  | some st => ¬ (¬ st.isReg ∨ maxFileSize < st.size)

/-- `F_OK | R_OK` -/
def readable : Nat := 4

/-- `CheckFilePathExist`, with what it makes of the path. -/
def checkFilePathExist (fs : FileSystem) (filePath : Bytes) (isFile : Bool) : Bool × Bytes :=
  match canonicalPath fs filePath with
  | none => (false, filePath)
  | some filePath =>
    if isFile ∧ ¬ checkFileStat fs filePath then (false, filePath)
    else if ¬ exist fs filePath readable then (false, filePath)
    else (true, filePath)

def getFolderPath (filePath : Bytes) : Option Bytes :=
  (rfind filePath [47]).map fun pos => filePath.take pos

/-- `GetFileName`: the slash is a part of it. -/
def getFileName (filePath : Bytes) : Option Bytes :=
  (rfind filePath [47]).map fun pos => filePath.drop pos

def checkFileSuffix (fs : FileSystem) (ksf suffix : Bytes) : Bool :=
  if ¬ isEndWith ksf suffix then false
  else (checkFilePathExist fs (getPathBeforeLastPart ksf) false).1

/-! ## The last place -/

/-- Where `rfind` finds a text, and that it is nowhere behind. -/
theorem rfind_spec (t : Bytes) : ∀ s : Bytes,
    (∀ i, rfind s t = some i → i ≤ s.length ∧ t <+: s.drop i ∧
      ∀ j, j ≤ s.length → t <+: s.drop j → j ≤ i) ∧
    (rfind s t = none → ∀ j, j ≤ s.length → ¬ t <+: s.drop j)
  | [] => by
    unfold rfind
    by_cases ht : t = []
    · subst ht
      rw [if_pos rfl]
      refine ⟨fun i hi => ?_, fun h => by cases h⟩
      obtain rfl := Option.some.inj hi
      exact ⟨Nat.le_refl _, List.prefix_refl _, fun j hj _ => hj⟩
    · rw [if_neg ht]
      refine ⟨fun i hi => (by cases hi), fun _ j _ hprefix => ht ?_⟩
      rw [List.drop_nil] at hprefix
      exact List.prefix_nil.mp hprefix
  | b :: rest => by
    obtain ⟨hsome, hnone⟩ := rfind_spec t rest
    unfold rfind
    cases hrest : rfind rest t with
    | some i =>
      obtain ⟨hle, hprefix, hlast⟩ := hsome i hrest
      refine ⟨fun i' hi' => ?_, fun h => by cases h⟩
      obtain rfl := Option.some.inj hi'
      refine ⟨Nat.succ_le_succ hle, hprefix, fun j hj hj' => ?_⟩
      cases j with
      | zero => exact Nat.zero_le _
      | succ j => exact Nat.succ_le_succ (hlast j (Nat.le_of_succ_le_succ hj) hj')
    | none =>
      have hnot := hnone hrest
      dsimp only
      split
      next hfirst =>
        refine ⟨fun i hi => ?_, fun h => by cases h⟩
        obtain rfl := Option.some.inj hi
        refine ⟨Nat.zero_le _, List.isPrefixOf_iff_prefix.mp hfirst, fun j hj hj' => ?_⟩
        cases j with
        | zero => exact Nat.le_refl _
        | succ j => exact absurd hj' (hnot j (Nat.le_of_succ_le_succ hj))
      next hfirst =>
        refine ⟨fun i hi => (by cases hi), fun _ j hj hj' => ?_⟩
        cases j with
        | zero => exact hfirst (List.isPrefixOf_iff_prefix.mpr hj')
        | succ j => exact hnot j (Nat.le_of_succ_le_succ hj) hj'

/-- **The end of a text** is where `rfind` has to find it. -/
theorem isEndWith_iff (str suffix : Bytes) :
    isEndWith str suffix = true ↔ suffix ≠ [] ∧ suffix <:+ str := by
  unfold isEndWith
  split
  next hempty =>
    refine iff_of_false (fun h => by cases h) fun h => ?_
    obtain ⟨hne, pre, rfl⟩ := h
    rcases hempty with hnil | hnil
    · exact hne (List.append_eq_nil_iff.mp hnil).2
    · exact hne hnil
  next hempty =>
    have hne := (not_or.mp hempty).2
    split
    next hlong => exact iff_of_false (fun h => by cases h) fun h => by have := h.2.length_le; omega
    next hlong =>
      have hle : suffix.length ≤ str.length := Nat.not_lt.mp hlong
      rw [decide_eq_true_eq]
      constructor
      · intro hfound
        obtain ⟨-, hprefix, -⟩ := (rfind_spec suffix str).1 _ hfound
        refine ⟨hne, ?_⟩
        have hall := hprefix.eq_of_length (by rw [List.length_drop]; omega)
        rw [hall]
        exact List.drop_suffix _ _
      · rintro ⟨-, pre, rfl⟩
        have hthere : suffix <+: (pre ++ suffix).drop pre.length := by rw [List.drop_left]
        rw [List.length_append, Nat.add_sub_cancel]
        cases hfound : rfind (pre ++ suffix) suffix with
        | none => exact absurd hthere ((rfind_spec _ _).2 hfound _ (by simp))
        | some i =>
          obtain ⟨hi, hprefix, hlast⟩ := (rfind_spec _ _).1 i hfound
          have hlow := hlast _ (by simp) hthere
          have hhigh := hprefix.length_le
          rw [List.length_drop, List.length_append] at hhigh
          have hpos := List.length_pos_iff.mpr hne
          rw [show i = pre.length by omega]

/-- **The two halves of a path**: the name starts at the last slash. -/
theorem folder_append_name {path folder name : Bytes} (hfolder : getFolderPath path = some folder)
    (hname : getFileName path = some name) :
    folder ++ name = path ∧ ∃ base, name = 47 :: base ∧ 47 ∉ base := by
  unfold getFolderPath at hfolder
  unfold getFileName at hname
  obtain ⟨pos, hpos, rfl⟩ := Option.map_eq_some_iff.mp hfolder
  obtain ⟨pos', hpos', rfl⟩ := Option.map_eq_some_iff.mp hname
  obtain rfl := Option.some.inj (hpos.symm.trans hpos')
  refine ⟨List.take_append_drop _ _, ?_⟩
  obtain ⟨hle, ⟨base, hbase⟩, hlast⟩ := (rfind_spec [47] path).1 pos hpos
  refine ⟨base, hbase.symm, fun hslash => ?_⟩
  -- a slash in the name would stand behind the last one
  obtain ⟨u, v, rfl⟩ := List.append_of_mem hslash
  have hthere : [47] <+: path.drop (pos + (u.length + 1)) := by
    rw [← List.drop_drop, ← hbase]
    show [47] <+: ((47 :: u) ++ 47 :: v).drop (47 :: u).length
    rw [List.drop_left]
    exact ⟨v, rfl⟩
  have hlong : pos + (u.length + 1) ≤ path.length := by
    have := congrArg List.length hbase
    rw [List.length_drop] at this
    simp only [List.length_append, List.length_cons, List.length_nil] at this
    omega
  have := hlast _ hlong hthere
  omega

theorem getPathBeforeLastPart_eq (path : Bytes) :
    getPathBeforeLastPart path = (getFolderPath path).getD [] := by
  unfold getPathBeforeLastPart getFolderPath
  split
  next hnil =>
    subst hnil
    rfl
  cases rfind path [47] with
  | none => rfl
  | some pos =>
    show (if pos = 0 ∧ path.length = 1 then [] else path.take pos) = path.take pos
    split
    next hroot => rw [hroot.1, List.take_zero]
    · rfl

/-- **Which names are taken**: those with the suffix whose folder is there and can be read. A file
right under the root has none. -/
theorem checkFileSuffix_iff (fs : FileSystem) (ksf suffix : Bytes) :
    checkFileSuffix fs ksf suffix = true ↔ suffix ≠ [] ∧ suffix <:+ ksf ∧
      ∃ folder real, getFolderPath ksf = some folder ∧ folder ≠ [] ∧
        canonicalPath fs folder = some real ∧ exist fs real readable = true := by
  unfold checkFileSuffix
  rw [getPathBeforeLastPart_eq]
  by_cases hend : isEndWith ksf suffix = true
  rotate_left
  · rw [if_pos hend]
    refine iff_of_false (fun h => by cases h) fun h => hend ?_
    exact (isEndWith_iff ksf suffix).mpr ⟨h.1, h.2.1⟩
  rw [if_neg (not_not.mpr hend)]
  obtain ⟨hne, hsuffix⟩ := (isEndWith_iff ksf suffix).mp hend
  have hroot : canonicalPath fs [] = none := rfl
  unfold checkFilePathExist
  constructor
  · intro h
    cases hfolder : getFolderPath ksf with
    | none =>
      rw [hfolder] at h
      dsimp only [Option.getD] at h
      rw [hroot] at h
      cases h
    | some folder =>
      rw [hfolder] at h
      dsimp only [Option.getD] at h
      cases hreal : canonicalPath fs folder with
      | none =>
        rw [hreal] at h
        cases h
      | some real =>
        rw [hreal] at h
        refine ⟨hne, hsuffix, folder, real, rfl, fun hnil => ?_, hreal, ?_⟩
        · subst hnil
          cases hroot.symm.trans hreal
        · dsimp only at h
          rw [if_neg (fun h => by cases h.1)] at h
          split at h
          · cases h
          next hexist => exact not_not.mp hexist
  · rintro ⟨-, -, folder, real, hfolder, -, hreal, hexist⟩
    rw [hfolder]
    dsimp only [Option.getD]
    rw [hreal]
    dsimp only
    rw [if_neg (fun h => by cases h.1), if_neg (not_not.mpr hexist)]

/-! ## Containment -/

/-- The zeros behind a path are no part of a directory. -/
theorem isPrefixOf_realpathBuffer {dir path : Bytes} (hdir : dir.getLast? = some 47) :
    dir.isPrefixOf (realpathBuffer path) = true ↔ dir <+: path := by
  rw [List.isPrefixOf_iff_prefix]
  unfold realpathBuffer
  constructor
  · intro h
    rcases Nat.le_total dir.length path.length with hle | hle
    · exact List.prefix_of_prefix_length_le h (List.prefix_append _ _) hle
    · obtain ⟨zeros, rfl⟩ := List.prefix_of_prefix_length_le (List.prefix_append _ _) h hle
      have hzeros : zeros <+: List.replicate (pathMax + 1 - path.length) 0 :=
        (List.prefix_append_right_inj path).mp h
      rcases List.eq_nil_or_concat zeros with rfl | ⟨front, b, rfl⟩
      · rw [List.append_nil]
      · -- the directory would end in a zero
        rw [List.concat_eq_append] at hzeros hdir
        have hb := List.eq_of_mem_replicate
          (hzeros.subset (List.mem_append_right _ (List.mem_singleton_self b)))
        rw [← List.append_assoc, List.getLast?_concat] at hdir
        obtain rfl := Option.some.inj hdir
        cases hb
  · exact fun h => h.trans (List.prefix_append _ _)

/-- **Which files are in the directory**: those whose real path begins with it and a slash. -/
theorem regularFilePathIn_iff (fs : FileSystem) (filePath baseDir errMsg : Bytes) :
    (regularFilePathIn fs filePath baseDir errMsg).1 = true ↔ filePath ≠ [] ∧ baseDir ≠ [] ∧
      filePath.length ≤ pathMax ∧ isSymlink fs filePath = false ∧
      ∃ path, fs.realpath (cstr filePath) = some path ∧
        (if baseDir.getLast? = some 47 then baseDir else baseDir ++ [47]) <+: path := by
  have hlast : (if baseDir.getLast? = some 47 then baseDir else baseDir ++ [47]).getLast? =
      some (47 : UInt8) := by
    split
    next h => exact h
    · exact List.getLast?_concat
  unfold regularFilePathIn
  split
  next hempty => exact iff_of_false (fun h => by cases h) fun h => h.1 hempty
  next hempty =>
  split
  next hbase => exact iff_of_false (fun h => by cases h) fun h => h.2.1 hbase
  next hbase =>
  split
  next hlong => exact iff_of_false (fun h => by cases h) fun h => absurd h.2.2.1 (by omega)
  next hlong =>
  split
  next hlink =>
    exact iff_of_false (fun h => by cases h) fun h => absurd hlink (by rw [h.2.2.2.1]; decide)
  next hlink =>
  have hlink : isSymlink fs filePath = false := Bool.eq_false_iff.mpr hlink
  cases hreal : fs.realpath (cstr filePath) with
  | none =>
    refine iff_of_false (fun h => by cases h) fun h => ?_
    obtain ⟨-, -, -, -, path, hpath, -⟩ := h
    cases hpath
  | some path =>
    dsimp only
    have hin := @isPrefixOf_realpathBuffer _ path hlast
    generalize (if baseDir.getLast? = some 47 then baseDir else baseDir ++ [47]) = dir at hin ⊢
    by_cases hprefix : dir <+: path
    · rw [if_pos (hin.mpr hprefix)]
      exact iff_of_true rfl ⟨hempty, hbase, Nat.not_lt.mp hlong, hlink, path, rfl, hprefix⟩
    · rw [if_neg fun h => hprefix (hin.mp h)]
      refine iff_of_false (fun h => by cases h) fun h => hprefix ?_
      obtain ⟨-, -, -, -, path', hpath, hprefix⟩ := h
      obtain rfl := Option.some.inj hpath
      exact hprefix

/-! ## Permissions, bit by bit -/

theorem testBit_permission (mode place j : Nat) :
    (permission mode place).testBit j = (decide (j < 3) && mode.testBit (place * 3 + j)) := by
  have hmask : (0b111 : Nat) = 2 ^ 3 - 1 := rfl
  unfold permission
  rw [Nat.testBit_shiftRight, Nat.testBit_and, Nat.testBit_shiftLeft, hmask,
    Nat.testBit_two_pow_sub_one, Nat.add_sub_cancel_left, Bool.and_comm]
  simp

/-- A digit within another is one whose bits are. -/
theorem permission_or_eq_iff (stMode mode place : Nat) :
    permission stMode place ||| permission mode place = permission mode place ↔
      ∀ j < 3, stMode.testBit (place * 3 + j) = true → mode.testBit (place * 3 + j) = true := by
  constructor
  · intro h j hj hbit
    have hbits := congrArg (Nat.testBit · j) h
    simp only [Nat.testBit_or, testBit_permission, hj, decide_true, Bool.true_and, hbit,
      Bool.true_or] at hbits
    exact hbits.symm
  · intro h
    refine Nat.eq_of_testBit_eq fun j => ?_
    simp only [Nat.testBit_or, testBit_permission]
    by_cases hj : j < 3
    · have hbit := h j hj
      cases hst : stMode.testBit (place * 3 + j) with
      | false => simp
      | true => simp [hbit hst, hj]
    · simp [hj]

/-- What the loop asks of the digits it has still to look at. -/
theorem permissionLoop_iff (stMode mode : Nat) (only : Bool) : ∀ (places : Nat) (errMsg : Bytes),
    (permissionLoop stMode mode only places errMsg).1 = true ↔ ∀ place < places,
      permission stMode place ||| permission mode place = permission mode place ∧
        (only = true → place + 1 ≠ 3 → permission stMode place = 0 ∨ permission stMode place = 4)
  | 0, _ => iff_of_true rfl fun _ h => absurd h (Nat.not_lt_zero _)
  | place + 1, errMsg => by
    have ih := permissionLoop_iff stMode mode only place
    -- the first digit is the highest
    have hsplit : ∀ {P : Nat → Prop}, (∀ q < place + 1, P q) ↔ P place ∧ ∀ q < place, P q := by
      intro P
      refine ⟨fun h => ⟨h _ (Nat.lt_succ_self _), fun q hq => h q (Nat.lt_succ_of_lt hq)⟩, ?_⟩
      intro h q hq
      rcases Nat.lt_succ_iff_lt_or_eq.mp hq with hq | rfl
      · exact h.2 q hq
      · exact h.1
    rw [hsplit]
    unfold permissionLoop
    dsimp only
    split
    next hmore => exact iff_of_false (fun h => by cases h) fun h => hmore h.1.1
    next hmore =>
    have hwithin := not_not.mp hmore
    split
    next hodd =>
      obtain ⟨hplace, hzero, hfour⟩ := hodd
      split
      next honly =>
        refine iff_of_false (fun h => by cases h) fun h => ?_
        rcases h.1.2 honly hplace with h | h
        · exact hzero h
        · exact hfour h
      next honly =>
        rw [ih]
        exact ⟨fun h => ⟨⟨hwithin, fun h' => absurd h' honly⟩, h⟩, fun h => h.2⟩
    next hodd =>
      rw [ih]
      refine ⟨fun h => ⟨⟨hwithin, fun _ hplace => ?_⟩, h⟩, fun h => h.2⟩
      by_contra hnot
      exact hodd ⟨hplace, (not_or.mp hnot).1, (not_or.mp hnot).2⟩

/-- **Which modes pass**: no permission that `mode` has not, and where only the current user may
operate, none for others but to read. -/
theorem permits_iff (fs : FileSystem) (filePath : Bytes) (mode : Nat) (only : Bool)
    (errMsg : Bytes) : (checkPermission fs filePath mode only errMsg).1 = true ↔
      ∃ st, fs.stat (cstr filePath) = some st ∧
        (∀ bit < 9, st.mode.testBit bit = true → mode.testBit bit = true) ∧
        (only = true → ∀ place < 2, permission st.mode place = 0 ∨ permission st.mode place = 4) := by
  unfold checkPermission
  cases hst : fs.stat (cstr filePath) with
  | none =>
    refine iff_of_false (fun h => by cases h) fun h => ?_
    obtain ⟨st, heq, -⟩ := h
    cases heq
  | some st =>
    dsimp only
    rw [permissionLoop_iff]
    constructor
    · intro h
      refine ⟨st, rfl, fun bit hbit hset => ?_, fun honly place hplace => ?_⟩
      · have hdigit := (permission_or_eq_iff st.mode mode (bit / 3)).mp
          (h (bit / 3) (by omega)).1 (bit % 3) (by omega)
        rw [show bit / 3 * 3 + bit % 3 = bit by omega] at hdigit
        exact hdigit hset
      · exact (h place (by omega)).2 honly (by omega)
    · rintro ⟨st', heq, hbits, hothers⟩ place hplace
      obtain rfl := Option.some.inj heq
      refine ⟨(permission_or_eq_iff _ _ _).mpr fun j hj => hbits _ (by omega), fun honly hne => ?_⟩
      exact hothers honly place (by omega)

end FileUtils

end CdfCrypto
