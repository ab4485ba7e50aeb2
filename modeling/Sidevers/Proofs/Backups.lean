/-
What a backup is worth (`backups_restore`): every file that calls of
`write_seed_backup` change is one name below a backups directory, holds a
sealed seed or the beginning of one, and starts the daemon on the seed it was
made of if it was written whole.

The sealed form is longer than a seed and no beginning of it is one
(`openSeed_cut`). So a beginning is refused under every passphrase, but for
the one of exactly a seed's length: that one is taken for a plaintext seed,
whatever the passphrase.
-/
import Sidevers.Net.Backups
import Sidevers.Proofs.Keystore

namespace Sidevers.Proofs

open Sidevers.Core
open Sidevers.Core.Cbor
open Sidevers.Lib
open Sidevers.Lib.Cbor
open Sidevers.Lib.UnixPath
open Sidevers.Net

variable {crypto : KeystoreCrypto} {nfc : String → String} {cwd : Place}
  {disk disk' : Disk} {c : BackupCall}

-- ============================================================== file names

/-- The names a backup can have. -/
structure SafeName (nfc : String → String) (name : String) : Prop where
  notEmpty : name ≠ ""
  short : name.utf8ByteSize ≤ maxBackupFilenameLen
  noSeparator : ¬ (name.toList.contains '/' ∨ name.toList.contains '\\')
  noDotInFront : name.toList.head? ≠ some '.'
  allowed : name.toList.any isForbidden = false
  ending : name.toList.getLast? ≠ some '.' ∧ name.toList.getLast? ≠ some ' '
  visible : name.toList.any isInvisible = false
  noDevice : winReserved.any
    (eqIgnoreAsciiCase (.ofList (name.toList.takeWhile (· ≠ '.')))) = false
  normal : nfc name = name

theorem SafeName.name {name : String} (h : SafeName nfc name) : Name name where
  noSlash := by
    have hsep := h.noSeparator
    simp only [List.contains_iff_mem, not_or] at hsep
    exact hsep.1
  notEmpty := h.notEmpty
  notDot := by
    rintro rfl
    exact h.noDotInFront rfl
  notDots := by
    rintro rfl
    exact h.noDotInFront rfl

theorem safeBackupPath_eq_ok_iff {canonical : Except String String}
    {filename path : String} :
    safeBackupPath nfc canonical filename = .ok path
      ↔ SafeName nfc (trim filename) ∧ ∃ dir, canonical = .ok dir
        ∧ path = join (join dir backupSubdir) (trim filename) := by
  unfold safeBackupPath
  constructor
  · intro h
    obtain ⟨hempty, h⟩ := guard_ok.mp h
    obtain ⟨hshort, h⟩ := guard_ok.mp h
    obtain ⟨hsep, h⟩ := guard_ok.mp h
    obtain ⟨hdot, h⟩ := guard_ok.mp h
    obtain ⟨hforbidden, h⟩ := guard_ok.mp h
    obtain ⟨hend, h⟩ := guard_ok.mp h
    obtain ⟨hvisible, h⟩ := guard_ok.mp h
    obtain ⟨hdevice, h⟩ := guard_ok.mp h
    obtain ⟨hnormal, h⟩ := guard_ok.mp h
    have hnormal := not_not.mp hnormal
    refine ⟨⟨hempty, Nat.le_of_not_lt hshort, hsep, fun hhead =>
      hdot (.inr (.inr hhead)), Bool.eq_false_iff.mpr hforbidden,
      not_or.mp hend, Bool.eq_false_iff.mpr hvisible,
      Bool.eq_false_iff.mpr hdevice, hnormal⟩, ?_⟩
    cases canonical with
    | error e => cases h
    | ok dir =>
        cases h
        exact ⟨dir, rfl, by rw [hnormal]⟩
  · rintro ⟨hsafe, dir, rfl, rfl⟩
    have hname := hsafe.name
    refine guard_ok.mpr ⟨hsafe.notEmpty, guard_ok.mpr ⟨Nat.not_lt.mpr
      hsafe.short, guard_ok.mpr ⟨hsafe.noSeparator, guard_ok.mpr ⟨?_,
      guard_ok.mpr ⟨?_, guard_ok.mpr ⟨not_or.mpr hsafe.ending,
      guard_ok.mpr ⟨?_, guard_ok.mpr ⟨?_, guard_ok.mpr
      ⟨not_not.mpr hsafe.normal, ?_⟩⟩⟩⟩⟩⟩⟩⟩⟩
    · rintro (hdot | hdots | hhead)
      · exact hname.notDot hdot
      · exact hname.notDots hdots
      · exact hsafe.noDotInFront hhead
    · exact Bool.eq_false_iff.mp hsafe.allowed
    · exact Bool.eq_false_iff.mp hsafe.visible
    · exact Bool.eq_false_iff.mp hsafe.noDevice
    · rw [hsafe.normal]
      rfl

theorem backupSubdir_name : Name backupSubdir := by decide

/-- It is the file of that name in the backups directory. -/
theorem resolve_backup (cwd : Place) (dir : String) {name : String}
    (h : Name name) :
    resolve cwd (join (join dir backupSubdir) name)
      = resolve cwd dir ++ [backupSubdir, name] := by
  rw [resolve_join cwd h, resolve_join cwd backupSubdir_name,
    List.append_assoc]
  rfl

-- ====================================================== the sealed form cut

section cut

variable {s : SealCall} {sealedSeed : List UInt8}

theorem run_fields (hdec : Decrypts crypto s)
    (hrun : s.run crypto = .ok sealedSeed) :
    ∃ ct, ct.length = secretKeyLen + aeadTagLen
      ∧ sealedSeed = (s.fields ct).encodeSealed := by
  obtain ⟨kek, ct, hkek, henc, hform⟩ := run_eq_ok_iff.mp hrun
  obtain ⟨made, hmade, hlen, -⟩ := hdec kek hkek
  rw [hmade] at henc
  cases henc
  exact ⟨ct, hlen, hform.symm⟩

/-- A sealed seed is longer than a seed: its ciphertext alone is. -/
theorem length_sealed_gt (hdec : Decrypts crypto s)
    (hrun : s.run crypto = .ok sealedSeed) :
    secretKeyLen < sealedSeed.length := by
  obtain ⟨ct, hlen, rfl⟩ := run_fields hdec hrun
  have hct : (bytes ct).length = stringSize 48 := by
    rw [length_string, hlen]
    rfl
  have hsize : 48 ≤ stringSize 48 := Nat.le_add_left _ _
  rw [ParsedSealed.encodeSealed, length_encodeMap]
  simp only [SealCall.fields, List.map_cons, List.sum_cons, hct]
  show 32 < _
  omega

theorem item_encodeSealed {fields : ParsedSealed}
    (hlen : fields.encodeSealed.length < 2 ^ 64) :
    Item fields.encodeSealed := by
  have hread := (reads_sealed fields).value hlen
  obtain ⟨-, -, hitem⟩ := spells_sealed.of_value hread
  exact hitem

/-- No beginning of a sealed seed opens. -/
theorem openSeed_cut (hdec : Decrypts crypto s)
    (hrun : s.run crypto = .ok sealedSeed) {k : Nat}
    (hk : k < sealedSeed.length) (passphrase : String)
    (seed : Bytes secretKeyLen) :
    openSeed crypto (sealedSeed.take k) passphrase ≠ .ok seed := by
  intro hopen
  obtain ⟨c, -, -, kek, ct, hread, -⟩ := openSeed_eq_ok_iff.mp hopen
  obtain ⟨whole, hlen, rfl⟩ := run_fields hdec hrun
  have hshort : (s.fields whole).encodeSealed.length < 2 ^ 64 :=
    length_fields_lt s hlen
  have hcut : Item ((s.fields whole).encodeSealed.take k) := by
    have hform := encodeSealed_of_decodeSealed hread
    rw [← hform]
    apply item_encodeSealed
    rw [hform, List.length_take]
    omega
  have hwhole := item_encodeSealed hshort
  rw [← List.take_append_drop k (s.fields whole).encodeSealed] at hwhole
  have hrest := List.drop_eq_nil_iff.mp (hcut.append_right_nil hwhole)
  omega

end cut

-- ============================================================== the readers

theorem parseSeedBytes_seed {raw : List UInt8}
    (hlen : raw.length = secretKeyLen) (passphrase : Option String) :
    parseSeedBytes crypto raw passphrase = .ok ⟨raw, hlen⟩ := by
  unfold parseSeedBytes
  rw [dif_pos hlen]

/-- Any other file is opened with the passphrase that is set. -/
theorem parseSeedBytes_ok_iff {raw : List UInt8} {passphrase : Option String}
    {seed : Bytes secretKeyLen} (hlen : raw.length ≠ secretKeyLen) :
    parseSeedBytes crypto raw passphrase = .ok seed
      ↔ ∃ pw, passphrase = some pw ∧ pw ≠ ""
        ∧ openSeed crypto raw pw = .ok seed := by
  unfold parseSeedBytes
  rw [dif_neg hlen]
  constructor
  · intro h
    split at h
    case h_1 => cases h
    case h_2 pw =>
      split at h
      case isTrue => cases h
      case isFalse hne =>
        split at h
        case h_1 => cases h
        case h_2 opened hopen =>
          cases h
          exact ⟨pw, rfl, hne, hopen⟩
  · rintro ⟨pw, rfl, hne, hopen⟩
    dsimp only
    rw [if_neg hne, hopen]

theorem readSeed_ok_iff {raw : List UInt8} {seed : Bytes secretKeyLen} :
    readSeed raw = .ok seed ↔ raw = seed.val := by
  unfold readSeed
  split
  case isTrue h =>
    constructor
    · intro hok
      cases hok
      rfl
    · rintro rfl
      rfl
  case isFalse h =>
    constructor
    · intro hok
      cases hok
    · rintro rfl
      exact absurd seed.property h

/-- What the daemon takes a beginning of a sealed seed for. -/
theorem parseSeedBytes_cut {s : SealCall} {sealedSeed : List UInt8}
    (hdec : Decrypts crypto s) (hrun : s.run crypto = .ok sealedSeed) {k : Nat}
    (hk : k < sealedSeed.length) (passphrase : Option String)
    (seed : Bytes secretKeyLen) :
    parseSeedBytes crypto (sealedSeed.take k) passphrase = .ok seed
      ↔ sealedSeed.take k = seed.val := by
  by_cases hlen : (sealedSeed.take k).length = secretKeyLen
  · rw [parseSeedBytes_seed hlen]
    constructor
    · intro h
      cases h
      rfl
    · intro h
      exact congrArg Except.ok (Subtype.ext h)
  · rw [parseSeedBytes_ok_iff hlen]
    constructor
    · rintro ⟨pw, -, -, hopen⟩
      exact absurd hopen (openSeed_cut hdec hrun hk pw seed)
    · intro h
      rw [h] at hlen
      exact absurd seed.property hlen

-- ============================================================= one call

/-- The seal a call makes of the seed of a side. -/
def sealCallOf (c : BackupCall) (seed : Bytes secretKeyLen) : SealCall where
  seed := seed
  passphrase := c.passphrase
  params := .default
  salt := c.io.salt
  nonce := c.io.nonce

/-- What a call seals, and the file it is for. -/
structure Seals (crypto : KeystoreCrypto) (nfc : String → String) (cwd : Place)
    (c : BackupCall) (seed : Bytes secretKeyLen) (place : Place)
    (sealedSeed : List UInt8) : Prop where
  started : c.node = some seed
  passphrase : c.passphrase ≠ ""
  safe : SafeName nfc (trim c.filename)
  below : ∃ dir, c.io.canonicalize c.dataDir = .ok dir
    ∧ place = resolve cwd dir ++ [backupSubdir, trim c.filename]
  made : (sealCallOf c seed).run crypto = .ok sealedSeed

theorem sealBackup_ok {path : String} {sealedSeed : List UInt8} (cwd : Place)
    (h : sealBackup crypto nfc c = .ok (path, sealedSeed)) :
    ∃ seed, Seals crypto nfc cwd c seed (resolve cwd path) sealedSeed := by
  unfold sealBackup at h
  obtain ⟨hpass, h⟩ := guard_ok.mp h
  split at h
  case h_1 => cases h
  case h_2 seed hnode =>
    obtain ⟨found, hpath, h⟩ := ok_of_bind h
    obtain ⟨hsafe, dir, hdir, rfl⟩ := safeBackupPath_eq_ok_iff.mp hpath
    obtain ⟨-, -, h⟩ := ok_of_bind h
    obtain ⟨-, -, h⟩ := ok_of_bind h
    split at h
    case h_1 => cases h
    case h_2 made hmade =>
      cases h
      exact ⟨seed, hnode, hpass, hsafe,
        ⟨dir, hdir, resolve_backup cwd dir hsafe.name⟩, hmade⟩

/-- A call changes no file, or writes one, whole or in part. -/
theorem backupStep_cases (hstep : backupStep crypto nfc cwd disk c = some disk') :
    disk' = disk ∨ ∃ seed place sealedSeed k,
      Seals crypto nfc cwd c seed place sealedSeed
        ∧ disk' = disk.insert place (sealedSeed.take k) := by
  simp only [backupStep, Option.some.injEq] at hstep
  subst hstep
  unfold writeSeedBackup
  split
  case h_1 => exact .inl rfl
  case h_2 path sealedSeed hsealed =>
    obtain ⟨seed, hseals⟩ := sealBackup_ok cwd hsealed
    cases c.io.write with
    | cut written =>
        cases written with
        | none => exact .inl rfl
        | some n => exact .inr ⟨seed, _, sealedSeed, n, hseals, rfl⟩
    | done =>
        refine .inr ⟨seed, _, sealedSeed, sealedSeed.length, hseals, ?_⟩
        rw [List.take_length]

/-- A call that succeeds has written the file whole. -/
theorem writeSeedBackup_ok {path : String}
    (h : (writeSeedBackup crypto nfc cwd disk c).1 = .ok path) :
    ∃ seed sealedSeed, Seals crypto nfc cwd c seed (resolve cwd path) sealedSeed
      ∧ backupStep crypto nfc cwd disk c
        = some (disk.insert (resolve cwd path) sealedSeed) := by
  unfold backupStep
  unfold writeSeedBackup at h ⊢
  split at h
  case h_1 => cases h
  case h_2 found sealedSeed hsealed =>
    obtain ⟨seed, hseals⟩ := sealBackup_ok cwd hsealed
    split at h
    case h_1 => cases h
    case h_2 => cases h
    case h_3 hwrite =>
      have hpath : found = path := by
        cases hperm : c.io.filePermissions with
        | error e =>
            rw [hperm] at h
            cases h
        | ok u =>
            rw [hperm] at h
            exact Except.ok.inj h
      subst hpath
      exact ⟨seed, sealedSeed, hseals, rfl⟩

-- ============================================================== every run

/-- A file holds what a call of the run sealed for it, up to a length. -/
def HoldsBackup (crypto : KeystoreCrypto) (nfc : String → String) (cwd : Place)
    (calls : List BackupCall) (place : Place) (file : List UInt8) : Prop :=
  ∃ c ∈ calls, ∃ seed sealedSeed k,
    Seals crypto nfc cwd c seed place sealedSeed ∧ file = sealedSeed.take k

theorem changed_run (calls : List BackupCall) {disk disk' : Disk}
    (hrun : run (backupStep crypto nfc cwd) disk calls = some disk')
    (place : Place) :
    disk' place = disk place ∨ ∃ file, disk' place = some file
      ∧ HoldsBackup crypto nfc cwd calls place file := by
  induction calls generalizing disk with
  | nil =>
      cases hrun
      exact .inl rfl
  | cons c rest ih =>
      rw [run_cons] at hrun
      obtain ⟨disk₁, hstep, hrun⟩ := Option.bind_eq_some_iff.mp hrun
      rcases ih hrun with hsame | ⟨file, hfile, d, hd, hholds⟩
      · rcases backupStep_cases hstep with
          rfl | ⟨seed, written, sealedSeed, k, hseals, rfl⟩
        · exact .inl hsame
        · by_cases heq : place = written
          · subst heq
            rw [Table.insert_self] at hsame
            exact .inr ⟨_, hsame, c, List.mem_cons_self, seed, sealedSeed, k,
              hseals, rfl⟩
          · rw [Table.insert_of_ne _ _ heq] at hsame
            exact .inl hsame
      · exact .inr ⟨file, hfile, d, List.mem_cons_of_mem _ hd, hholds⟩

/-- The whole file starts the daemon on its seed. -/
theorem Seals.restores {seed : Bytes secretKeyLen} {place : Place}
    {sealedSeed : List UInt8}
    (h : Seals crypto nfc cwd c seed place sealedSeed)
    (hdec : Decrypts crypto (sealCallOf c seed)) :
    parseSeedBytes crypto sealedSeed (some c.passphrase) = .ok seed := by
  have hlong := length_sealed_gt hdec h.made
  obtain ⟨kek, -, hkek, -⟩ := run_eq_ok_iff.mp h.made
  obtain ⟨made, hmade, hopen⟩ := openSeed_run hdec hkek
  have hbytes : made = sealedSeed := Except.ok.inj (hmade.symm.trans h.made)
  rw [parseSeedBytes_ok_iff (Nat.ne_of_gt hlong)]
  exact ⟨c.passphrase, rfl, h.passphrase, hbytes ▸ hopen⟩

/-- In every run of calls, whatever the operating system answers and however
often a write is cut short: a file that is not as it was is one name in a
backups directory and holds what a call sealed for it, up to a length. Whole,
it starts the daemon on the seed under the call's passphrase. As a beginning
it is taken for a plaintext seed if it has a seed's length, and is refused
under every passphrase otherwise; the command line takes nothing else. And what
a call that succeeded wrote is there, whole, as long as no later call is for
the same file. -/
theorem backups_restore (crypto : KeystoreCrypto) (nfc : String → String)
    (cwd : Place) (calls : List BackupCall) (disk disk' : Disk)
    (hdec : ∀ c ∈ calls, ∀ seed, c.node = some seed →
      Decrypts crypto (sealCallOf c seed))
    (hrun : run (backupStep crypto nfc cwd) disk calls = some disk') :
    (∀ place, disk' place = disk place ∨ ∃ c ∈ calls, ∃ seed sealedSeed k,
      Seals crypto nfc cwd c seed place sealedSeed
        ∧ disk' place = some (sealedSeed.take k)
        ∧ (sealedSeed.length ≤ k →
          parseSeedBytes crypto (sealedSeed.take k) (some c.passphrase)
            = .ok seed)
        ∧ (k < sealedSeed.length → ∀ passphrase seed',
          parseSeedBytes crypto (sealedSeed.take k) passphrase = .ok seed'
            ↔ sealedSeed.take k = seed'.val)
        ∧ ∀ seed', readSeed (sealedSeed.take k) = .ok seed' →
          k = secretKeyLen)
    ∧ ∀ before c after disk₁ path, calls = before ++ c :: after →
      run (backupStep crypto nfc cwd) disk before = some disk₁ →
      (writeSeedBackup crypto nfc cwd disk₁ c).1 = .ok path →
      (∀ d ∈ after, ∀ seed sealedSeed,
        ¬ Seals crypto nfc cwd d seed (resolve cwd path) sealedSeed) →
      ∃ seed file, c.node = some seed
        ∧ disk' (resolve cwd path) = some file
        ∧ parseSeedBytes crypto file (some c.passphrase) = .ok seed
        ∧ ∀ seed', readSeed file ≠ .ok seed' := by
  constructor
  · intro place
    rcases changed_run calls hrun place with
      hsame | ⟨_, hfile, c, hc, seed, sealedSeed, k, hseals, rfl⟩
    · exact .inl hsame
    · have hc' := hdec c hc seed hseals.started
      refine .inr ⟨c, hc, seed, sealedSeed, k, hseals, hfile, fun hk => ?_,
        fun hk => parseSeedBytes_cut hc' hseals.made hk, fun seed' hread => ?_⟩
      · rw [List.take_of_length_le hk]
        exact hseals.restores hc'
      · have hlen := congrArg List.length (readSeed_ok_iff.mp hread)
        have hlong := length_sealed_gt hc' hseals.made
        rw [List.length_take, seed'.property] at hlen
        omega
  · rintro before c after disk₁ path rfl hbefore hok hlater
    obtain ⟨seed, sealedSeed, hseals, hstep⟩ := writeSeedBackup_ok hok
    have hc := hdec c (by simp) seed hseals.started
    have hafter : run (backupStep crypto nfc cwd)
        (disk₁.insert (resolve cwd path) sealedSeed) after = some disk' := by
      rw [run_append, hbefore, Option.bind_some, run_cons, hstep] at hrun
      exact hrun
    have hfile : disk' (resolve cwd path) = some sealedSeed := by
      rcases changed_run after hafter (resolve cwd path) with
        hsame | ⟨_, -, d, hd, seed', made, k, hseals', -⟩
      · rw [hsame, Table.insert_self]
      · exact absurd hseals' (hlater d hd seed' made)
    refine ⟨seed, sealedSeed, hseals.started, hfile, hseals.restores hc,
      fun seed' hread => ?_⟩
    have hlong := length_sealed_gt hc hseals.made
    rw [readSeed_ok_iff.mp hread, seed'.property] at hlong
    omega

/-- Primitives under which everything sealed opens again. -/
def taggedCrypto : KeystoreCrypto where
  acceptsParams _ := true
  hashPasswordInto _ _ _ := some (Bytes.fill _ 1)
  encrypt _ _ pt _ := some (pt ++ List.replicate aeadTagLen 0)
  decrypt _ _ ct _ := some (ct.take secretKeyLen)
  escapesDebug _ := false

/-- A backup of a seed under this name, whose write ends so. -/
def backupAs (filename : String) (write : CacheWrite) : BackupCall where
  dataDir := "."
  filename := filename
  passphrase := "correct horse battery staple"
  node := some (Bytes.fill _ 0xAB)
  io := ⟨fun _ => .ok "/home/a", .ok (), .ok (), Bytes.fill _ 5,
    Bytes.fill _ 6, write, "disk full", .ok ()⟩

theorem tagged_decrypts (c : SealCall) : Decrypts taggedCrypto c := by
  intro kek _
  refine ⟨_, rfl, ?_, ?_⟩
  · rw [List.length_append, List.length_replicate, c.seed.property]
  · show some ((c.seed.val ++ _).take secretKeyLen) = _
    rw [List.take_left' c.seed.property]

/-- What is on the disk of one that was cut at a seed's length. -/
def tornBackup : Bytes secretKeyLen :=
  let torn := sealCallOf (backupAs "later.bin" .done) (Bytes.fill _ 0xAB)
  ⟨(torn.fields (torn.seed.val ++ List.replicate aeadTagLen 0)).encodeSealed.take
    secretKeyLen, by decide⟩

/-- A whole backup, and behind it one that the disk has no room for: the first
starts the daemon on the seed, the second on what was written of it, whatever
the passphrase. -/
theorem backups_restore_full :
    let calls := [backupAs " seed.bin" .done,
      backupAs "later.bin" (.cut (some 32))]
    ∃ disk file, run (backupStep taggedCrypto id []) .empty calls = some disk
      ∧ disk ["home", "a", "backups", "seed.bin"] = some file
      ∧ parseSeedBytes taggedCrypto file (some "correct horse battery staple")
        = .ok (Bytes.fill _ 0xAB)
      ∧ disk ["home", "a", "backups", "later.bin"] = some tornBackup.val
      ∧ ∀ passphrase, parseSeedBytes taggedCrypto tornBackup.val passphrase
        = .ok tornBackup := by
  intro calls
  have hrun : run (backupStep taggedCrypto id []) .empty calls = some _ := rfl
  have hdec : ∀ c ∈ calls, ∀ seed, c.node = some seed →
      Decrypts taggedCrypto (sealCallOf c seed) :=
    fun c _ seed _ => tagged_decrypts _
  have hlater : ∀ d ∈ [backupAs "later.bin" (.cut (some 32))],
      ∀ seed sealedSeed, ¬ Seals taggedCrypto id [] d seed
        (resolve [] "/home/a/backups/seed.bin") sealedSeed := by
    intro d hd seed sealedSeed hseals
    obtain rfl := List.mem_singleton.mp hd
    obtain ⟨dir, hdir, hplace⟩ := hseals.below
    cases hdir
    exact absurd hplace (by decide)
  obtain ⟨-, hwhole⟩ :=
    backups_restore taggedCrypto id [] calls .empty _ hdec hrun
  obtain ⟨seed, file, hnode, hfile, hopen, -⟩ :=
    hwhole [] _ _ _ "/home/a/backups/seed.bin" rfl rfl rfl hlater
  cases hnode
  exact ⟨_, file, hrun, hfile, hopen, rfl,
    parseSeedBytes_seed tornBackup.property⟩

end Sidevers.Proofs
