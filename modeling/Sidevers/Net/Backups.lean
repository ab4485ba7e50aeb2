/-
Seed backups: the app writes them (`write_seed_backup` of the desktop's
`main.rs`), the daemon starts from them (`parse_seed_bytes` of its `main.rs`),
and the command line takes plaintext seeds alone (`read_seed` of `cli.rs`).

What the operating system answers stands in a call (`BackupIo`), with what is
drawn for the seal; the source of randomness does not fail. Files are by the
place they are at: neither a backups directory nor a file in it is a symbolic
link, and paths are UTF-8. Directories and the permissions of files are not
kept. Calls come one after the other. The normalisation of Unicode is a
third-party crate's (`nfc`).
-/
import Sidevers.Core.Keystore
import Sidevers.Lib.UnixPath
import Sidevers.Net.DirectClients

namespace Sidevers.Net

open Sidevers.Core
open Sidevers.Lib
open Sidevers.Lib.UnixPath

/-- `BACKUP_SUBDIR`. -/
def backupSubdir : String := "backups"

/-- `MAX_BACKUP_FILENAME_LEN`. -/
def maxBackupFilenameLen : Nat := 128

/-- `WIN_RESERVED`. -/
def winReserved : List String :=
  ["CON", "PRN", "AUX", "NUL", "COM1", "COM2", "COM3", "COM4", "COM5", "COM6",
    "COM7", "COM8", "COM9", "LPT1", "LPT2", "LPT3", "LPT4", "LPT5", "LPT6",
    "LPT7", "LPT8", "LPT9"]

/-- `eq_ignore_ascii_case`. -/
def eqIgnoreAsciiCase (a b : String) : Bool :=
  a.toList.map Char.toLower = b.toList.map Char.toLower

/-- NUL and what NTFS reserves. -/
def isForbidden (c : Char) : Bool :=
  [Char.ofNat 0, ':', '*', '?', '"', '<', '>', '|'].contains c

/-- The overrides of direction and the characters without width. -/
def isInvisible (c : Char) : Bool :=
  let n := c.toNat
  (0x202A ≤ n && n ≤ 0x202E) || (0x2066 ≤ n && n ≤ 0x2069)
    || (0x200B ≤ n && n ≤ 0x200F) || n = 0xFEFF

/-- `safe_backup_path`, with what `canonicalize` answers for `data_dir`. -/
def safeBackupPath (nfc : String → String) (canonical : Except String String)
    (filename : String) : Except String String := do
  let trimmed := trim filename
  let chars := trimmed.toList
  if trimmed = "" then
    throw "backup filename cannot be empty"
  if trimmed.utf8ByteSize > maxBackupFilenameLen then
    throw s!"backup filename too long (max {maxBackupFilenameLen} chars)"
  if chars.contains '/' ∨ chars.contains '\\' then
    throw "backup filename must not contain path separators"
  if trimmed = "." ∨ trimmed = ".." ∨ chars.head? = some '.' then
    throw "backup filename cannot start with '.' or be a parent ref"
  if chars.any isForbidden then
    throw "backup filename contains a forbidden character"
  if chars.getLast? = some '.' ∨ chars.getLast? = some ' ' then
    throw "backup filename cannot end with '.' or space"
  if chars.any isInvisible then
    throw "backup filename contains a bidi/zero-width control character"
  let stem := String.ofList (chars.takeWhile (· ≠ '.'))
  if winReserved.any (eqIgnoreAsciiCase stem) then
    throw s!"backup filename uses a reserved Windows device name ({stem})"
  let normalized := nfc trimmed
  if normalized ≠ trimmed then
    throw ("backup filename contains non-NFC-normalized Unicode "
      ++ "(visually ambiguous)")
  match canonical with
  | .error e => throw s!"data_dir does not resolve to a real path: {e}"
  | .ok dir => return join (join dir backupSubdir) normalized

-- ============================================================ the app's call

/-- What a call of `write_seed_backup` is answered by the operating system, and
what it draws. -/
structure BackupIo where
  canonicalize : String → Except String String
  createDirAll : Except String Unit
  dirPermissions : Except String Unit
  salt : Bytes saltLen
  nonce : Bytes aeadNonceLen
  write : CacheWrite
  writeError : String
  filePermissions : Except String Unit

/-- A call of `write_seed_backup`, with the seed of the node's side if the node
is started. -/
structure BackupCall where
  dataDir : String
  filename : String
  passphrase : String
  node : Option (Bytes secretKeyLen)
  io : BackupIo

/-- The files of the machine. -/
abbrev Disk := Table Place (List UInt8)

/-- A keystore error as it is displayed. -/
def keystoreErrorText : Core.Error → String
  | .cborDecode msg => s!"CBOR decode failed: {msg}"
  | .cborNotCanonical msg => s!"CBOR not in canonical encoding: {msg}"
  | .signatureInvalid => "signature verification failed"
  | .decryptionFailed => "payload decryption failed"
  | .badFieldLength field expected got =>
      s!"field {field} expected {expected} bytes, got {got}"
  | .unsupportedVersion got => s!"unsupported protocol version: {got}"
  | .invariant msg => s!"protocol invariant violated: {msg}"

/-- A failure of the operating system under what was being done. -/
def during (what : String) : Except String Unit → Except String Unit
  | .ok () => .ok ()
  | .error e => .error (what ++ e)

/-- `write_seed_backup` up to the write: the path and what is written there. -/
def sealBackup (crypto : KeystoreCrypto) (nfc : String → String)
    (c : BackupCall) : Except String (String × List UInt8) := do
  if c.passphrase = "" then
    throw "a passphrase is required to back up the seed"
  match c.node with
  | none => throw "node not started — backup must run after start_node"
  | some seed =>
      let path ← safeBackupPath nfc (c.io.canonicalize c.dataDir) c.filename
      during "creating backup dir: " c.io.createDirAll
      c.io.dirPermissions
      match sealSeed crypto seed c.passphrase c.io.salt c.io.nonce with
      | .error e =>
          let e := keystoreErrorText e
          throw s!"sealing seed: {e}"
      | .ok sealedSeed => return (path, sealedSeed)

/-- `write_seed_backup`. -/
def writeSeedBackup (crypto : KeystoreCrypto) (nfc : String → String)
    (cwd : Place) (disk : Disk) (c : BackupCall) :
    Except String String × Disk :=
  match sealBackup crypto nfc c with
  | .error e => (.error e, disk)
  | .ok (path, sealedSeed) =>
      let failed := .error ("writing sealed seed file: " ++ c.io.writeError)
      match c.io.write with
      | .cut none => (failed, disk)
      | .cut (some n) =>
          (failed, disk.insert (resolve cwd path) (sealedSeed.take n))
      | .done =>
          (c.io.filePermissions.map fun () => path,
            disk.insert (resolve cwd path) sealedSeed)

/-- The disk after a call. -/
def backupStep (crypto : KeystoreCrypto) (nfc : String → String) (cwd : Place)
    (disk : Disk) (c : BackupCall) : Option Disk :=
  some (writeSeedBackup crypto nfc cwd disk c).2

-- =========================================================== who reads them

/-- Why the daemon does not start from a seed file. -/
inductive SeedFileError where
  | passphraseNotSet (length : Nat)
  | passphraseEmpty
  | opening (e : Core.Error)

/-- `parse_seed_bytes` of the daemon, with the passphrase the environment
gives. -/
def parseSeedBytes (crypto : KeystoreCrypto) (raw : List UInt8)
    (passphrase : Option String) :
    Except SeedFileError (Bytes secretKeyLen) :=
  if h : raw.length = secretKeyLen then .ok ⟨raw, h⟩
  else
    match passphrase with
    | none => .error (.passphraseNotSet raw.length)
    | some pw =>
        if pw = "" then .error .passphraseEmpty
        else
          match openSeed crypto raw pw with
          | .error e => .error (.opening e)
          | .ok seed => .ok seed

/-- `read_seed` of the command line, on the bytes of a file: their number if
they are no seed. -/
def readSeed (raw : List UInt8) : Except Nat (Bytes secretKeyLen) :=
  if h : raw.length = secretKeyLen then .ok ⟨raw, h⟩ else .error raw.length

end Sidevers.Net
