import BlackBull.Lib.Hoare
import BlackBull.Lib.Run
import BlackBull.Snapshots.HardenedUnpack

/-!
# What an archive can do

A valid entry goes to a place that its kind allows (`Place`), and the path it is opened under is
that place again.
-/

namespace BlackBull.Snapshots

open List

variable {fs : FileSystem} {ledgerDir path dst : Path} {accountPaths : List Path} {entry : Entry}
  {names : List String} {v : String}

def IsDigits (v : List Char) : Prop := v ≠ [] ∧ ∀ c ∈ v, c.isDigit

lemma isDigits_of_allDigits (h : allDigits v) : IsDigits v.toList := by
  simp only [allDigits, Bool.and_eq_true, all_eq_true] at h
  refine ⟨fun hnil => ?_, h.2⟩
  simp_all

def IsStorage (v : List Char) : Prop := ∃ a b, IsDigits a ∧ IsDigits b ∧ v = a ++ '.' :: b

lemma likeStorageFrom_spec {v seen : List Char} {periods : ℕ} (hseen : ∀ c ∈ seen, c.isDigit)
    (h : likeStorageFrom v periods (decide (seen ≠ []))) :
    if periods = 0 then IsStorage (seen ++ v) else IsDigits (seen ++ v) := by
  induction v generalizing seen periods with
  | nil =>
    cases seen with
    | nil => simp [likeStorageFrom] at h
    | cons c seen =>
      obtain rfl : periods = 1 := by simpa [likeStorageFrom] using h
      simpa [IsDigits] using hseen
  | cons x v ih =>
    unfold likeStorageFrom at h
    split_ifs at h with hx hdot hsaw
    · have := @ih (seen ++ [x]) periods (by simpa [or_imp, forall_and, hx] using hseen)
        (by simpa using h)
      simpa using this
    · subst hdot
      obtain ⟨hperiods, hsaw⟩ := not_or.1 hsaw
      obtain rfl := Nat.eq_zero_of_not_pos hperiods
      exact ⟨seen, v, ⟨by simpa using hsaw, hseen⟩, @ih [] 1 nofun (by simpa using h), rfl⟩

variable (ledgerDir accountPaths) in
/-- The places where an unpacked archive may have a file, or a directory if the flag is set. -/
inductive Place : Path → Bool → Prop
  | version : Place (ledgerDir ++ [.normal "version"]) false
  | accounts : Place (ledgerDir ++ [.normal "accounts"]) true
  | account {a : Path} {file : String} : a ∈ accountPaths → IsStorage file.toList →
    Place (a ++ [.normal file]) false
  | snapshots : Place (ledgerDir ++ [.normal "snapshots"]) true
  | statusCache : Place (ledgerDir ++ [.normal "snapshots", .normal "status_cache"]) false
  | bank {dir : String} : IsDigits dir.toList →
    Place (ledgerDir ++ [.normal "snapshots", .normal dir]) true
  | snapshot {dir file : String} : IsDigits dir.toList → IsDigits file.toList →
    Place (ledgerDir ++ [.normal "snapshots", .normal dir, .normal file]) false

variable (ledgerDir accountPaths) in
/-- The directories that may be opened: the given ones and those made for the archive. -/
def Opened (path : Path) : Prop :=
  path = ledgerDir ∨ path ∈ accountPaths ∨ Place ledgerDir accountPaths path true

lemma Place.parent {dir : Bool} (h : Place ledgerDir accountPaths path dir) :
    Opened ledgerDir accountPaths path.dropLast := by
  cases h with
  | version | accounts | snapshots => exact .inl (by simp)
  | account ha => exact .inr (.inl (by simpa using ha))
  | statusCache | bank => exact .inr (.inr (by simpa [dropLast_append_of_ne_nil] using .snapshots))
  | snapshot hd => exact .inr (.inr (by simpa [dropLast_append_of_ne_nil] using .bank hd))

lemma path_of_parts (h : parts path = some names) (hdot : "." ∉ names) :
    path = names.map .normal := by
  induction path generalizing names with
  | nil =>
    cases h
    rfl
  | cons part path ih =>
    rw [parts, mapM_cons] at h
    obtain ⟨name, hname, h⟩ := Option.bind_eq_some_iff.1 h
    obtain ⟨names, hnames, h⟩ := Option.bind_eq_some_iff.1 h
    cases h
    rw [mem_cons, not_or] at hdot
    cases part with
    | normal name' =>
      cases hname
      rw [ih hnames hdot.2, map_cons]
    | curDir =>
      cases hname
      exact absurd rfl hdot.1
    | rootDir | parentDir | notUtf8 => cases hname

lemma pushParts_normal (names : List String) (dst : Path) :
    pushParts dst (names.map .normal) = some (dst ++ names.map .normal) := by
  induction names generalizing dst with
  | nil => simp [pushParts]
  | cons name names ih => simp [pushParts, ih]

/-- The kinds that are unpacked, and whether a directory is made. -/
inductive EntryType.Makes : EntryType → Bool → Prop
  | directory : Makes .directory true
  | regular : Makes .regular false
  | gnuSparse : Makes .gnuSparse false

lemma EntryType.Makes.ne_directory {kind : EntryType} (h : kind.Makes false) : kind ≠ .directory := by
  cases h <;> nofun

lemma ne_dot (h : allDigits v) : "." ≠ v := by
  rintro rfl
  exact absurd h (by decide)

variable (ledgerDir accountPaths) in
lemma valid_cases {kind : EntryType} (h : isValidSnapshotArchiveEntry names kind) :
    (∃ file, names = ["accounts", file] ∧ likeStorage file ∧ kind.Makes false)
      ∨ (∀ file, names ≠ ["accounts", file]) ∧ "." ∉ names ∧ ∃ dir, kind.Makes dir
        ∧ Place ledgerDir accountPaths (ledgerDir ++ names.map .normal) dir := by
  unfold isValidSnapshotArchiveEntry at h
  split at h
  · exact .inr ⟨by simp, by decide, _, .regular, .version⟩
  · exact .inr ⟨by simp, by decide, _, .directory, .accounts⟩
  · exact .inl ⟨_, rfl, h, .gnuSparse⟩
  · exact .inl ⟨_, rfl, h, .regular⟩
  · exact .inr ⟨by simp, by decide, _, .directory, .snapshots⟩
  · exact .inr ⟨by simp, by decide, _, .gnuSparse, .statusCache⟩
  · exact .inr ⟨by simp, by decide, _, .regular, .statusCache⟩
  · obtain ⟨hd, hf⟩ := Bool.and_eq_true_iff.1 h
    exact .inr ⟨by simp, by simp [ne_dot hd, ne_dot hf], _, .gnuSparse,
      .snapshot (isDigits_of_allDigits hd) (isDigits_of_allDigits hf)⟩
  · obtain ⟨hd, hf⟩ := Bool.and_eq_true_iff.1 h
    exact .inr ⟨by simp, by simp [ne_dot hd, ne_dot hf], _, .regular,
      .snapshot (isDigits_of_allDigits hd) (isDigits_of_allDigits hf)⟩
  · exact .inr ⟨by simp, by simp [ne_dot h], _, .directory, .bank (isDigits_of_allDigits h)⟩
  · cases h

lemma place_of_valid {kind : EntryType} {i : ℕ}
    (h : snapshotChecker ledgerDir accountPaths i names kind = .valid dst)
    (hparts : parts path = some names) :
    ∃ fileDst dir, pushParts dst (strippedPath path names) = some fileDst
      ∧ kind.Makes dir ∧ Place ledgerDir accountPaths fileDst dir := by
  unfold snapshotChecker at h
  split_ifs at h with hvalid
  rcases valid_cases ledgerDir accountPaths hvalid with
    ⟨file, rfl, hfile, hkind⟩ | ⟨hne, hdot, dir, hkind, hplace⟩
  · cases hget : accountPaths[i % accountPaths.length]? with
    | none => simp [hget] at h
    | some a =>
      simp only [hget, Option.elim_some, UnpackPath.valid.injEq] at h
      subst h
      exact ⟨_, false, pushParts_normal [file] a, hkind,
        .account (mem_of_getElem? hget) (@likeStorageFrom_spec _ [] 0 nofun hfile)⟩
  · have hpath : strippedPath path names = path := by
      unfold strippedPath
      split
      · exact absurd rfl (hne _)
      · rfl
    split at h
    · exact absurd rfl (hne _)
    · cases h
      refine ⟨_, dir, ?_, hkind, hplace⟩
      rw [hpath, path_of_parts hparts hdot, pushParts_normal]

/-- An entry whose content is written to a file, if the unpacking gets to it. -/
def Entry.IsFile (entry : Entry) : Bool :=
  entry.entryType != .directory && (entry.path.bind parts).any fun names =>
    isValidSnapshotArchiveEntry names entry.entryType

/-- The content is not longer than the header says. -/
def Entry.Fits (entry : Entry) : Prop := ∀ k ∈ entry.entrySize, entry.contentLen ≤ k

instance (entry : Entry) : Decidable entry.Fits := inferInstanceAs (Decidable (∀ k ∈ _, _))

lemma isFile_of_valid {i : ℕ} (hpath : entry.path = some path) (hparts : parts path = some names)
    (h : snapshotChecker ledgerDir accountPaths i names entry.entryType = .valid dst)
    (hne : entry.entryType ≠ .directory) : entry.IsFile := by
  unfold snapshotChecker at h
  split_ifs at h with hvalid
  simp [Entry.IsFile, hpath, hparts, hne, hvalid]

namespace FsOp

variable (ledgerDir accountPaths) in
/-- What may be done to the file system. -/
def Allowed : FsOp → Prop
  | .createDirAll path => Opened ledgerDir accountPaths path
  | .createDir path => Place ledgerDir accountPaths path true
  | .createLink _ => False
  | .writeFile path _ => Place ledgerDir accountPaths path false

/-- The entries that a call unpacks. -/
def unpacked : FsOp → ℕ
  | .createDirAll _ => 0
  | _ => 1

/-- The bytes that a call writes. -/
def written : FsOp → ℕ
  | .writeFile _ written => written
  | _ => 0

end FsOp

/-- What the unpacking is held to; `sized` says that no content is longer than its header. -/
structure Bounds where
  ledgerDir : Path
  accountPaths : List Path
  limits : Limits
  sized : Prop

variable {c : Bounds} {n len : ℕ} {s s' : Unpacking}

/-- The invariant: what was done is allowed, and with `n` entries of `len` bytes to come it is
within the totals, which are within the limits. -/
structure Within (c : Bounds) (n len : ℕ) (s : Unpacking) : Prop where
  allowed : ∀ op ∈ s.log, op.Allowed c.ledgerDir c.accountPaths
  count : (s.log.map FsOp.unpacked).sum + n ≤ s.totalCount
  count_le : s.totalCount ≤ c.limits.count
  size : c.sized → (s.log.map FsOp.written).sum + len ≤ s.actualTotalSize
  size_le : s.actualTotalSize ≤ c.limits.actualSize

namespace Within

lemma mono {n' len' : ℕ} (h : Within c n len s) (hn : n' ≤ n) (hlen : len' ≤ len) :
    Within c n' len' s :=
  ⟨h.allowed, Nat.le_trans (Nat.add_le_add_left hn _) h.count, h.count_le,
    fun hs => Nat.le_trans (Nat.add_le_add_left hlen _) (h.size hs), h.size_le⟩

lemma forget (h : Within c n len s) : Within c 0 0 s := h.mono (Nat.zero_le _) (Nat.zero_le _)

lemma log {op : FsOp} (h : Within c (n + op.unpacked) (len + op.written) s)
    (hop : op.Allowed c.ledgerDir c.accountPaths) :
    Within c n len { s with log := s.log ++ [op] } where
  allowed := by simpa [or_imp, forall_and, hop] using h.allowed
  count := by
    have := h.count
    simp
    omega
  count_le := h.count_le
  size hs := by
    have := h.size hs
    simp
    omega
  size_le := h.size_le

end Within

lemma triple_checkLimits (hlimit : c.limits.actualSize < 2 ^ 64 - 1)
    (hsized : c.sized → ∀ k ∈ entry.entrySize, len ≤ k) :
    Triple (Within c 0 0) (checkLimits c.limits entry) (fun _ => Within c 1 len)
      fun _ => Within c 0 0 := by
  intro s h
  unfold checkLimits
  cases hs : s.check c.limits entry with
  | error e => exact h
  | ok s' =>
    obtain ⟨size, -, hs⟩ := Except.bind_eq_ok.1 hs
    obtain ⟨apparent, -, hs⟩ := Except.bind_eq_ok.1 hs
    obtain ⟨k, hk, hs⟩ := Except.bind_eq_ok.1 hs
    obtain ⟨actual, hactual, hs⟩ := Except.bind_eq_ok.1 hs
    obtain ⟨count, hcount, hs⟩ := Except.bind_eq_ok.1 hs
    cases hs
    have hk : entry.entrySize = some k := by
      cases he : entry.entrySize with
      | none => simp [he] at hk
      | some k' => simpa [he] using hk
    simp only [checkedTotalSizeSum, checkedTotalCountIncrement] at hactual hcount
    split_ifs at hactual with hle
    split_ifs at hcount with hle'
    cases hactual
    cases hcount
    refine ⟨h.allowed, Nat.succ_le_succ h.count, Nat.le_of_not_lt hle', fun hs => ?_,
      Nat.le_of_not_lt hle⟩
    have := h.size hs
    have := hsized hs k hk
    dsimp only
    omega

lemma triple_perform (op : FsOp) {e : UnpackError} (hop : op.Allowed c.ledgerDir c.accountPaths)
    (hwritten : op.written = 0) :
    Triple (Within c (n + op.unpacked) len) (perform fs op e) (fun _ => Within c n len)
      fun _ => Within c 0 0 := by
  intro s hs
  have h := Within.log (by simpa [hwritten] using hs) hop
  unfold perform
  split_ifs
  · exact h
  · exact h.forget

lemma triple_unpackEntry {dir : Bool} (hkind : entry.entryType.Makes dir)
    (hlegacy : (!entry.isUstar && entry.endsWithSlash && entry.entryType != .directory) = false)
    (hplace : Place c.ledgerDir c.accountPaths dst dir) :
    Triple (Within c 1 (if dir then 0 else entry.contentLen)) (unpackEntry fs entry dst)
      (fun _ => Within c 0 0) fun _ => Within c 0 0 := by
  have hfile : dir = false → Triple (Within c 1 entry.contentLen)
      (writeFile fs dst entry.contentLen) (fun _ => Within c 0 0) fun _ => Within c 0 0 := by
    rintro rfl s hs
    have h : Within c 0 0 { s with
        log := s.log ++ [.writeFile dst (min entry.contentLen (fs.room s.log dst))] } :=
      Within.log (hs.mono (Nat.le_refl 1) (by
        rw [Nat.zero_add]
        exact Nat.min_le_left _ _)) hplace
    unfold writeFile
    dsimp only
    split_ifs <;> exact h
  unfold unpackEntry shouldFallbackToTarUnpack
  generalize entry.entryType = kind at hkind hlegacy
  cases hkind with
  | directory =>
    exact triple_perform (.createDir dst) hplace rfl
  | regular | gnuSparse =>
    exact .ite (fun h => absurd h (by simpa using hlegacy)) fun _ => hfile rfl

lemma triple_sanitize {fileDst : Path} (hpush : pushParts dst path = some fileDst)
    (hopen : Opened c.ledgerDir c.accountPaths fileDst.dropLast) :
    Triple (Within c n len) (sanitizePathAndOpenDir fs path dst)
      (fun r s => Within c n len s ∧ ∀ p ∈ r, p = fileDst) fun _ => Within c 0 0 := by
  unfold sanitizePathAndOpenDir
  rw [hpush]
  refine .ite (fun _ => .pure fun s hs => ⟨hs, nofun⟩) fun _ => ?_
  refine .bind (Q := fun _ => Within c n len) ?_ fun _ => .pure fun s hs => ⟨hs, by simp⟩
  refine .get_bind fun s0 hs0 => .ite (fun _ => .pure fun s hs => hs ▸ hs0) fun _ => ?_
  refine .bind ((triple_perform (.createDirAll _) hopen rfl).conseq
    (fun s hs => hs ▸ hs0) fun _ _ h => h) fun _ => ?_
  refine .bind (Q := fun _ => Within c n len) (fun s hs => ?_) fun _ s hs => ?_
  · unfold validateInsideDst
    cases fs.canonicalize s.log fileDst.dropLast with
    | none => exact hs.forget
    | some canonParent =>
      cases fs.canonicalize s.log dst with
      | none => exact hs.forget
      | some canonTarget =>
        dsimp only
        split_ifs
        · exact hs
        · exact hs.forget
  · unfold openDir
    split_ifs
    · exact { hs with }
    · exact hs.forget

theorem triple_unpackNext {i : ℕ} (hlimit : c.limits.actualSize < 2 ^ 64 - 1)
    (hsized : c.sized → entry.IsFile → entry.Fits) :
    Triple (Within c 0 0)
      (unpackNext fs c.limits (snapshotChecker c.ledgerDir c.accountPaths i) entry)
      (fun _ => Within c 0 0) fun _ => Within c 0 0 := by
  unfold unpackNext
  cases hpath : entry.path with
  | none => exact .throw fun _ h => h
  | some path =>
    dsimp only
    split
    case h_2 => exact .throw fun _ h => h
    case h_1 names hparts hlegacy =>
    cases hcheck : snapshotChecker c.ledgerDir c.accountPaths i names entry.entryType with
    | invalid => exact .throw fun _ h => h
    | ignore => exact .pure fun _ h => h
    | valid unpackDir =>
      obtain ⟨fileDst, dir, hpush, hkind, hplace⟩ := place_of_valid hcheck hparts
      have hlen : c.sized → ∀ k ∈ entry.entrySize, (if dir then 0 else entry.contentLen) ≤ k := by
        intro hc k hk
        cases dir with
        | true => exact Nat.zero_le _
        | false => exact hsized hc (isFile_of_valid hpath hparts hcheck hkind.ne_directory) k hk
      refine .bind (triple_checkLimits hlimit hlen) fun _ => ?_
      refine .bind (triple_sanitize hpush hplace.parent) fun r => ?_
      cases r with
      | none => exact .pure fun _ h => h.1.forget
      | some dst =>
        intro s hs
        obtain rfl := hs.2 dst rfl
        exact triple_unpackEntry hkind hlegacy hplace s hs.1

/-- Where an operation makes a directory, or something else, if `present` was there before. -/
def FsOp.MadeAt (present : Path → Prop) (path : Path) (dir : Bool) : FsOp → Prop
  | .createDirAll opened => path <+: opened ∧ ¬ present path ∧ dir = true
  | .createDir made => path = made ∧ dir = true
  | .createLink made | .writeFile made _ => path = made ∧ dir = false

variable (ledgerDir accountPaths) in
/-- What was done makes and writes only what it may, links nothing and unpacks no more entries than
the limit. It writes no more bytes than the limit if the content of no file is longer than its
header says. -/
structure Contained (present : Path → Prop) (entries : List Entry) (log : List FsOp) : Prop where
  allowed : ∀ op ∈ log, op.Allowed ledgerDir accountPaths
  made : ∀ op ∈ log, ∀ path dir, op.MadeAt present path dir → Place ledgerDir accountPaths path dir
  count : (log.map FsOp.unpacked).sum ≤ maxSnapshotArchiveUnpackedCount
  size : (∀ entry ∈ entries, entry.IsFile → entry.Fits) →
    (log.map FsOp.written).sum ≤ maxSnapshotArchiveUnpackedActualSize

variable {present : Path → Prop}
  (hpresent : ∀ root ∈ ledgerDir :: accountPaths, ∀ path, path <+: root → present path)

include hpresent in
lemma place_of_made {op : FsOp} {dir : Bool} (hop : op.Allowed ledgerDir accountPaths)
    (h : op.MadeAt present path dir) : Place ledgerDir accountPaths path dir := by
  cases op with
  | createDir | writeFile =>
    obtain ⟨rfl, rfl⟩ := h
    exact hop
  | createLink => exact hop.elim
  | createDirAll opened =>
    obtain ⟨hle, hnew, rfl⟩ := h
    have hledger : ¬ path <+: ledgerDir := fun hp => hnew (hpresent _ mem_cons_self _ hp)
    have hsnapshots (hp : path <+: ledgerDir ++ [.normal "snapshots"]) :
        Place ledgerDir accountPaths path true :=
      (prefix_concat_iff.1 hp).resolve_right hledger ▸ .snapshots
    rcases hop with rfl | hmem | hplace
    · exact absurd hle hledger
    · exact absurd (hpresent _ (mem_cons_of_mem _ hmem) _ hle) hnew
    cases hplace with
    | accounts => exact (prefix_concat_iff.1 hle).resolve_right hledger ▸ .accounts
    | snapshots => exact hsnapshots hle
    | bank hd =>
      rw [append_cons ledgerDir] at hle
      rcases prefix_concat_iff.1 hle with rfl | hp
      · simpa using .bank hd
      · exact hsnapshots hp

include hpresent in
/-- Whether it ends well or not, the unpacking of an archive is contained. -/
theorem streamingUnpackSnapshot_contained (draw : ℕ → ℕ) (drained : List FsOp → Bool)
    (entries : List Entry) :
    Triple (· = {}) (streamingUnpackSnapshot fs ledgerDir accountPaths draw drained entries)
      (fun _ s => Contained ledgerDir accountPaths present entries s.log)
      fun _ s => Contained ledgerDir accountPaths present entries s.log := by
  let c : Bounds := ⟨ledgerDir, accountPaths, ⟨maxSnapshotArchiveUnpackedApparentSize,
    maxSnapshotArchiveUnpackedActualSize, maxSnapshotArchiveUnpackedCount⟩,
    ∀ entry ∈ entries, entry.IsFile → entry.Fits⟩
  have hcontained (s : Unpacking) (h : Within c 0 0 s) :
      Contained ledgerDir accountPaths present entries s.log :=
    ⟨h.allowed, fun op hop _ _ => place_of_made hpresent (h.allowed op hop),
      Nat.le_trans h.count h.count_le, fun hsized => Nat.le_trans (h.size hsized) h.size_le⟩
  have hwithin : Triple (Within c 0 0)
      (streamingUnpackSnapshot fs ledgerDir accountPaths draw drained entries)
      (fun _ => Within c 0 0) fun _ => Within c 0 0 := by
    refine .ite (fun _ => .throw fun _ h => h) fun _ => ?_
    refine .bind (.forM_const fun (entry, i) hmem => ?_) fun _ => .get_bind fun s0 hs0 => ?_
    · exact triple_unpackNext (c := c)
        (show maxSnapshotArchiveUnpackedActualSize < 2 ^ 64 - 1 by decide)
        fun hsized => hsized entry (fst_mem_of_mem_zipIdx hmem)
    · exact .ite (fun _ => .pure fun _ h => h ▸ hs0) fun _ => .throw fun _ h => h ▸ hs0
  refine (hwithin.conseq ?_ fun _ => hcontained).conseq_error fun _ => hcontained
  rintro _ rfl
  exact ⟨nofun, Nat.le_refl _, Nat.zero_le _, fun _ => Nat.le_refl _, Nat.zero_le _⟩

def plentyFs : FileSystem :=
  ⟨fun _ _ => true, fun _ p => some p, fun _ _ => true, fun _ _ => 2 ^ 64⟩

def versionEntry (contentLen : ℕ) : Entry :=
  ⟨some [.normal "version"], false, true, .regular, some 5, some 5, contentLen⟩

def ledgerPath : Path := [.rootDir, .normal "ledger"]

/-- The version, the directories, of which one has content, and a status cache with holes. -/
def statusArchive : List Entry :=
  [versionEntry 5,
    ⟨some [.normal "accounts"], true, true, .directory, some 0, some 0, 9⟩,
    ⟨some [.normal "snapshots"], true, true, .directory, some 0, some 0, 0⟩,
    ⟨some [.normal "snapshots", .normal "status_cache"], false, true, .gnuSparse, some 8, some 4, 4⟩]

def endLog : EStateM.Result UnpackError Unpacking Unit → Option (List FsOp)
  | .ok _ s => some s.log
  | .error _ _ => none

lemma exists_endLog {x : UnpackM Unit} {P Q : List FsOp → Prop} [DecidablePred P]
    (h : Triple (· = {}) x (fun _ s => Q s.log) fun _ s => Q s.log)
    (hdone : (endLog (x {})).any (fun log => decide (P log)) = true) :
    ∃ log, endLog (x {}) = some log ∧ P log ∧ Q log := by
  have hend := h {} rfl
  obtain ⟨log, hlog, hP⟩ := (Option.any_eq_true _ _).1 hdone
  refine ⟨log, hlog, of_decide_eq_true hP, ?_⟩
  cases hx : x {} with
  | ok _ s =>
    rw [hx] at hend hlog
    exact Option.some.inj hlog ▸ hend
  | error e s =>
    rw [hx] at hlog
    cases hlog

theorem streamingUnpackSnapshot_statusArchive :
    (∀ entry ∈ statusArchive, entry.IsFile → entry.Fits)
    ∧ ∃ log, endLog (streamingUnpackSnapshot plentyFs ledgerPath [ledgerPath ++ [.normal "run"]] id
        (fun _ => true) statusArchive {}) = some log
      ∧ ((log.map FsOp.unpacked).sum = 4 ∧ (log.map FsOp.written).sum = 9)
      ∧ Contained ledgerPath [ledgerPath ++ [.normal "run"]]
        (· <+: ledgerPath ++ [.normal "run"]) statusArchive log :=
  ⟨by decide, exists_endLog (streamingUnpackSnapshot_contained (by
    simp only [forall_mem_cons]
    exact ⟨fun path h => h.trans (prefix_append _ _), fun path h => h, nofun⟩) _ _ _)
    (by decide +kernel)⟩

/-- A PAX record gives the file more content than the limit. -/
theorem streamingUnpackSnapshot_paxSize : ∃ s, streamingUnpackSnapshot plentyFs [.rootDir]
      [[.rootDir]] id (fun _ => true) [versionEntry (2 ^ 42 + 1)] {} = .ok () s
    ∧ s.log = [.createDirAll [.rootDir], .writeFile [.rootDir, .normal "version"] (2 ^ 42 + 1)]
    ∧ maxSnapshotArchiveUnpackedActualSize < 2 ^ 42 + 1 :=
  ⟨_, rfl, rfl, by decide⟩

end BlackBull.Snapshots
