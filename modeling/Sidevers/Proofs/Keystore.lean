/-
A sealed seed opens as it was sealed, and not otherwise.

The format has one form, read back field by field (`reads_sealed`,
`spells_sealed`), and the associated data says which parameters and which salt
the key was derived under (`buildAad_injective`). So what opens was encrypted
by one of the seals made, with all of its header and its passphrase
(`opens_only_as_sealed`).

The cipher is ideal as an oracle is: it decrypts what the seals at hand
encrypted. Argon2id derives one key from no two of the passphrases tried.
-/
import Sidevers.Core.Keystore
import Sidevers.Proofs.CborWrites
import Sidevers.Proofs.RecordForms
import Sidevers.Proofs.WireSizes

namespace Sidevers.Proofs

open Sidevers.Core
open Sidevers.Core.Cbor
open Sidevers.Lib

-- ============================================================== the format

theorem spells_readU32 (name : String) :
    Spells (ParsedSealed.readU32 name) fun v => uint v.toUInt64 := by
  refine spells_readU64.bind fun v bs ⟨hbs, hitem⟩ =>
    .ite (fun _ => .throw_bind) fun hle => .pure ?_
  have hle : v.toNat ≤ 0xFFFFFFFF := Nat.le_of_not_lt hle
  have hv : v.toUInt32.toUInt64 = v := by
    apply UInt64.toNat.inj
    rw [UInt32.toNat_toUInt64, UInt64.toNat_toUInt32]
    omega
  show bs ++ [] = uint v.toUInt32.toUInt64 ∧ _
  rw [List.append_nil, hv]
  exact ⟨hbs, hitem⟩

theorem reads_readU32 (name : String) (v : UInt32) :
    Reads (ParsedSealed.readU32 name) (uint v.toUInt64) v := by
  have hv := v.toNat_lt
  refine (reads_readU64 _).andThen (.neg (fun hgt => ?_) ?_)
  · have hgt : 0xFFFFFFFF < v.toUInt64.toNat := hgt
    rw [UInt32.toNat_toUInt64] at hgt
    omega
  · rw [UInt32.toUInt32_toUInt64]
    exact .pure v

theorem spells_sealed :
    Spells ParsedSealed.readFields ParsedSealed.encodeSealed :=
  spells_map (.field spells_readBytes fun _ => .field spells_readText fun _ =>
    .field spells_readText fun _ => .field spells_readBytes fun _ =>
    .field spells_readBytes fun _ => .field spells_readU64 fun _ =>
    .field (spells_readU32 _) fun _ => .field (spells_readU32 _) fun _ =>
    .field (spells_readU32 _) fun _ => .pure ⟨rfl, rfl⟩)

theorem reads_sealed (s : ParsedSealed) :
    Reads ParsedSealed.readFields s.encodeSealed s := by
  refine .map (by decide : 9 ≤ maxCborEntries) ?_
  refine .field (reads_readBytes s.ct) ?_
  refine .field (reads_readText s.kdf) ?_
  refine .field (reads_readText s.aead) ?_
  refine .field (reads_readBytes s.salt) ?_
  refine .field (reads_readBytes s.nonce) ?_
  refine .field (reads_readU64 s.version) ?_
  refine .field (reads_readU32 _ s.params.mKib) ?_
  refine .field (reads_readU32 _ s.params.p) ?_
  exact .field (reads_readU32 _ s.params.t) (.pure s)

theorem decodeSealed_encodeSealed {s : ParsedSealed}
    (hlen : s.encodeSealed.length < 2 ^ 64) :
    ParsedSealed.decodeSealed s.encodeSealed = .ok s :=
  (reads_sealed s).whole hlen _

theorem encodeSealed_of_decodeSealed {b : List UInt8} {s : ParsedSealed}
    (h : ParsedSealed.decodeSealed b = .ok s) : s.encodeSealed = b :=
  (spells_sealed.of_whole h).symm

-- ====================================================== associated data

theorem buildAad_eq (version : UInt64) (kdf aead : String)
    (params : Argon2Params) (salt : List UInt8) :
    buildAad version kdf aead params salt
      = arrayHeader 7 ++ (uint version ++ (text kdf
        ++ (uint params.mKib.toUInt64 ++ (uint params.t.toUInt64
          ++ (uint params.p.toUInt64 ++ (text aead ++ bytes salt)))))) := by
  simp only [buildAad, CborWriter.new, CborWriter.intoBytes,
    CborWriter.writeArrayHeader, CborWriter.writeU64, CborWriter.writeText,
    CborWriter.writeBytes, CborWriter.extend, arrayHeader, uint, text, bytes,
    List.nil_append, List.append_assoc]

/-- The seven items of the associated data. -/
def readAad : Read (UInt64 × String × Argon2Params × String × List UInt8) := do
  let _ ← readArrayHeader
  let version ← readU64
  let kdf ← readText
  let mKib ← ParsedSealed.readU32 "argon2_m"
  let t ← ParsedSealed.readU32 "argon2_t"
  let p ← ParsedSealed.readU32 "argon2_p"
  let aead ← readText
  let salt ← readBytes
  return (version, kdf, { mKib, t, p }, aead, salt)

theorem reads_aad (version : UInt64) (kdf aead : String)
    (params : Argon2Params) (salt : List UInt8) :
    Reads readAad (buildAad version kdf aead params salt)
      (version, kdf, params, aead, salt) := by
  have hcount : Reads readArrayHeader (arrayHeader 7) 7 :=
    reads_readCount "array" (by decide) (by decide)
  rw [buildAad_eq]
  refine hcount.bind ((reads_readU64 version).bind ?_)
  refine (reads_readText kdf).bind ((reads_readU32 _ params.mKib).bind ?_)
  refine (reads_readU32 _ params.t).bind ((reads_readU32 _ params.p).bind ?_)
  exact (reads_readText aead).bind ((reads_readBytes salt).andThen (.pure _))

/-- The associated data says all that it is made of. -/
theorem buildAad_injective {version version' : UInt64}
    {kdf kdf' aead aead' : String} {params params' : Argon2Params}
    {salt salt' : List UInt8}
    (hlen : (buildAad version kdf aead params salt).length < 2 ^ 64)
    (h : buildAad version kdf aead params salt
      = buildAad version' kdf' aead' params' salt') :
    version = version' ∧ kdf = kdf' ∧ params = params' ∧ aead = aead'
      ∧ salt = salt' := by
  have hread := reads_aad version' kdf' aead' params' salt'
  rw [← h] at hread
  have heq := (reads_aad version kdf aead params salt).unique hread hlen
  simpa only [Prod.mk.injEq] using heq

-- ========================================================= seal and open

/-- A call of `seal_seed_with`, with what it draws. -/
structure SealCall where
  seed : Bytes secretKeyLen
  passphrase : String
  params : Argon2Params
  salt : Bytes saltLen
  nonce : Bytes aeadNonceLen

namespace SealCall

/-- What the call returns. -/
def run (crypto : KeystoreCrypto) (c : SealCall) : Except Error (List UInt8) :=
  sealSeedWith crypto c.seed c.passphrase c.params c.salt c.nonce

/-- The key it derives. -/
def key (crypto : KeystoreCrypto) (c : SealCall) : Except Error (Bytes 32) :=
  deriveKek crypto c.passphrase c.salt.val c.params

/-- What it has authenticated with the seed. -/
def aad (c : SealCall) : List UInt8 :=
  buildAad sealedSeedVersion kdfArgon2id aeadCc20p c.params c.salt.val

/-- The fields it writes around the ciphertext. -/
def fields (c : SealCall) (ct : List UInt8) : ParsedSealed where
  version := sealedSeedVersion
  kdf := kdfArgon2id
  params := c.params
  salt := c.salt.val
  aead := aeadCc20p
  nonce := c.nonce.val
  ct := ct

end SealCall

/-- Everything but the salt and the texts is a head. -/
theorem length_aad_lt (c : SealCall) : c.aad.length < 2 ^ 64 := by
  have hcount := headSize_le (UInt64.ofNat 7)
  have hversion := headSize_le sealedSeedVersion
  have hm := headSize_le c.params.mKib.toUInt64
  have ht := headSize_le c.params.t.toUInt64
  have hp := headSize_le c.params.p.toUInt64
  have hkdf : textSize kdfArgon2id = 9 := rfl
  have haead : textSize aeadCc20p = 18 := rfl
  have hsalt := stringSize_le saltLen
  have hsaltLen : saltLen = 16 := rfl
  rw [SealCall.aad, buildAad_eq]
  simp only [List.length_append, arrayHeader, length_writeHead, length_uint,
    length_text, length_string, length_val]
  omega

theorem length_fields_lt (c : SealCall) {ct : List UInt8}
    (hct : ct.length = secretKeyLen + aeadTagLen) :
    (c.fields ct).encodeSealed.length < 2 ^ 64 := by
  have hversion := headSize_le sealedSeedVersion
  have hm := headSize_le c.params.mKib.toUInt64
  have ht := headSize_le c.params.t.toUInt64
  have hp := headSize_le c.params.p.toUInt64
  have htexts : (["ct", "kdf", "aead", "salt", "nonce", "version", "argon2_m",
      "argon2_p", "argon2_t", kdfArgon2id, aeadCc20p].map textSize).sum = 85 :=
    rfl
  have hctSize := stringSize_le (secretKeyLen + aeadTagLen)
  have hctLen : secretKeyLen + aeadTagLen = 48 := rfl
  have hsalt := stringSize_le saltLen
  have hsaltLen : saltLen = 16 := rfl
  have hnonce := stringSize_le aeadNonceLen
  have hnonceLen : aeadNonceLen = 12 := rfl
  simp only [List.map_cons, List.map_nil, List.sum_cons, List.sum_nil]
    at htexts
  rw [ParsedSealed.encodeSealed, length_encodeMap]
  refine Nat.lt_of_le_of_lt (Nat.add_le_add_right (headSize_le _) _) ?_
  simp only [SealCall.fields, List.map_cons, List.map_nil, List.sum_cons,
    List.sum_nil, length_key, length_uint, length_text, length_string,
    length_val, hct]
  omega

theorem run_eq_ok_iff {crypto : KeystoreCrypto} {c : SealCall}
    {sealed : List UInt8} :
    c.run crypto = .ok sealed ↔ ∃ kek ct, c.key crypto = .ok kek
      ∧ crypto.encrypt kek c.nonce c.seed.val c.aad = some ct
      ∧ (c.fields ct).encodeSealed = sealed := by
  constructor
  · intro h
    obtain ⟨kek, hkek, h⟩ := ok_of_bind h
    cases henc : crypto.encrypt kek c.nonce c.seed.val c.aad with
    | none =>
        rw [SealCall.aad] at henc
        simp only [henc] at h
        cases h
    | some ct =>
        rw [SealCall.aad] at henc
        simp only [henc] at h
        cases h
        exact ⟨kek, ct, hkek, henc, rfl⟩
  · rintro ⟨kek, ct, hkek, henc, rfl⟩
    refine bind_ok hkek ?_
    rw [SealCall.aad] at henc
    simp only [henc]
    rfl

theorem exactly_eq_ok_iff {field : String} {n : Nat} {b : List UInt8}
    {v : Bytes n} : exactly field n b = .ok v ↔ b = v.val := by
  unfold exactly
  split
  case isTrue hlen =>
    constructor
    · intro h
      cases h
      rfl
    · rintro rfl
      rfl
  case isFalse hlen =>
    refine iff_of_false (fun h => by cases h) ?_
    rintro rfl
    exact hlen v.property

/-- What opens is what some call would have written. -/
theorem openSeed_eq_ok_iff {crypto : KeystoreCrypto} {sealed : List UInt8}
    {passphrase : String} {seed : Bytes secretKeyLen} :
    openSeed crypto sealed passphrase = .ok seed
      ↔ ∃ c : SealCall, c.passphrase = passphrase ∧ c.seed = seed
        ∧ ∃ kek ct, ParsedSealed.decodeSealed sealed = .ok (c.fields ct)
          ∧ c.key crypto = .ok kek
          ∧ crypto.decrypt kek c.nonce ct c.aad = some seed.val := by
  constructor
  · intro h
    obtain ⟨⟨version, kdf, params, saltBytes, aead, nonceBytes, ct⟩, hp, h⟩ :=
      ok_of_bind h
    obtain ⟨hversion, h⟩ := guard_ok.mp h
    obtain ⟨hkdf, h⟩ := guard_ok.mp h
    obtain ⟨haead, h⟩ := guard_ok.mp h
    obtain ⟨salt, hsalt, h⟩ := ok_of_bind h
    obtain ⟨nonce, hnonce, h⟩ := ok_of_bind h
    obtain ⟨kek, hkek, h⟩ := ok_of_bind h
    obtain rfl := not_not.mp hversion
    obtain rfl := not_not.mp hkdf
    obtain rfl := not_not.mp haead
    obtain rfl := exactly_eq_ok_iff.mp hsalt
    obtain rfl := exactly_eq_ok_iff.mp hnonce
    refine ⟨⟨seed, passphrase, params, salt, nonce⟩, rfl, rfl, kek, ct, hp,
      hkek, ?_⟩
    unfold SealCall.aad
    dsimp only at h ⊢
    split at h
    case h_1 => cases h
    case h_2 pt hdec => rw [hdec, exactly_eq_ok_iff.mp h]
  · rintro ⟨c, rfl, rfl, kek, ct, hp, hkek, hdec⟩
    have hsalt : exactly "salt" saltLen (c.fields ct).salt = .ok c.salt :=
      exactly_eq_ok_iff.mpr rfl
    have hnonce : exactly "nonce" aeadNonceLen (c.fields ct).nonce
        = .ok c.nonce := exactly_eq_ok_iff.mpr rfl
    refine bind_ok hp (guard_ok.mpr ⟨not_not.mpr rfl, guard_ok.mpr
      ⟨not_not.mpr rfl, guard_ok.mpr ⟨not_not.mpr rfl, bind_ok hsalt
      (bind_ok hnonce (bind_ok hkek ?_))⟩⟩⟩)
    unfold SealCall.aad at hdec
    simp only [SealCall.fields, hdec]
    exact exactly_eq_ok_iff.mpr rfl

-- ============================================================ the theorem

/-- The cipher gives back what the call encrypts, with a tag behind it. -/
def Decrypts (crypto : KeystoreCrypto) (c : SealCall) : Prop :=
  ∀ kek, c.key crypto = .ok kek →
    ∃ ct, crypto.encrypt kek c.nonce c.seed.val c.aad = some ct
      ∧ ct.length = secretKeyLen + aeadTagLen
      ∧ crypto.decrypt kek c.nonce ct c.aad = some c.seed.val

/-- Ideal primitives, where `log` are the seals made and `tried` the
passphrases anyone opens with: what decrypts was encrypted by one of the seals,
under the same key, nonce and associated data, and no other passphrase tried
derives the key of a seal from its salt. -/
structure IdealSeals (crypto : KeystoreCrypto) (log : Set SealCall)
    (tried : Set String) : Prop where
  authentic : ∀ kek nonce ct aad pt,
    crypto.decrypt kek nonce ct aad = some pt →
      ∃ c ∈ log, c.key crypto = .ok kek ∧ c.nonce = nonce ∧ c.aad = aad
        ∧ crypto.encrypt kek nonce pt aad = some ct ∧ c.seed.val = pt
  distinct : ∀ c ∈ log, ∀ passphrase ∈ tried, ∀ kek,
    c.key crypto = .ok kek →
      deriveKek crypto passphrase c.salt.val c.params = .ok kek →
        passphrase = c.passphrase

/-- A seal that is made opens. -/
theorem openSeed_run {crypto : KeystoreCrypto} {c : SealCall}
    (hdec : Decrypts crypto c) {kek : Bytes 32}
    (hkek : c.key crypto = .ok kek) :
    ∃ sealed, c.run crypto = .ok sealed
      ∧ openSeed crypto sealed c.passphrase = .ok c.seed := by
  obtain ⟨ct, henc, hlen, hdec⟩ := hdec kek hkek
  have hread := decodeSealed_encodeSealed (length_fields_lt c hlen)
  refine ⟨_, run_eq_ok_iff.mpr ⟨kek, ct, hkek, henc, rfl⟩, ?_⟩
  exact openSeed_eq_ok_iff.mpr ⟨c, rfl, rfl, kek, ct, hread, hkek, hdec⟩

/-- What opens was sealed. -/
theorem sealed_of_openSeed {crypto : KeystoreCrypto} {log : Set SealCall}
    {tried : Set String} (hideal : IdealSeals crypto log tried)
    {sealed : List UInt8} {passphrase : String} {seed : Bytes secretKeyLen}
    (htried : passphrase ∈ tried)
    (h : openSeed crypto sealed passphrase = .ok seed) :
    ∃ c ∈ log, c.passphrase = passphrase ∧ c.seed = seed
      ∧ c.run crypto = .ok sealed := by
  obtain ⟨opened, rfl, rfl, kek, ct, hread, hkek, hdec⟩ :=
    openSeed_eq_ok_iff.mp h
  obtain ⟨c, hc, hckek, hnonce, haad, henc, hseed⟩ :=
    hideal.authentic _ _ _ _ _ hdec
  -- the associated data carries the parameters and the salt of the key
  obtain ⟨-, -, hparams, -, hsalt⟩ :=
    buildAad_injective (length_aad_lt c) haad
  have hsalt : c.salt = opened.salt := Subtype.ext hsalt
  have hseed : c.seed = opened.seed := Subtype.ext hseed
  have hpass : opened.passphrase = c.passphrase := by
    apply hideal.distinct c hc _ htried kek hckek
    rw [hparams, hsalt]
    exact hkek
  obtain ⟨cSeed, cPass, cParams, cSalt, cNonce⟩ := c
  cases hseed; cases hpass; cases hparams; cases hsalt; cases hnonce
  refine ⟨_, hc, rfl, rfl, run_eq_ok_iff.mpr ⟨kek, ct, hkek, henc, ?_⟩⟩
  exact encodeSealed_of_decodeSealed hread

/-- Where one seal is made, its bytes open under its passphrase alone, and no
others open at all. -/
theorem only_sealed_opens {crypto : KeystoreCrypto} {c : SealCall}
    {tried : Set String} (hideal : IdealSeals crypto {c} tried)
    {s s' : ParsedSealed} {passphrase : String} (htried : passphrase ∈ tried)
    (hrun : c.run crypto = .ok s.encodeSealed)
    (hlen : s'.encodeSealed.length < 2 ^ 64)
    (hne : s' ≠ s ∨ passphrase ≠ c.passphrase) :
    ∃ e, openSeed crypto s'.encodeSealed passphrase = .error e := by
  cases hopen : openSeed crypto s'.encodeSealed passphrase with
  | error e => exact ⟨e, rfl⟩
  | ok seed =>
      obtain ⟨_, rfl, hpass, -, hrun'⟩ := sealed_of_openSeed hideal htried hopen
      have hbytes : s'.encodeSealed = s.encodeSealed :=
        Except.ok.inj (hrun'.symm.trans hrun)
      have hread := decodeSealed_encodeSealed hlen
      rw [hbytes, decodeSealed_encodeSealed (hbytes ▸ hlen)] at hread
      cases hread
      rcases hne with hne | hne
      · exact absurd rfl hne
      · exact absurd hpass.symm hne

/-- A seal of accepted parameters opens as the seed it was made of; the format
has one form, read back as it was written; and under ideal primitives nothing
opens but what a seal wrote, under its passphrase, so that after one seal no
change of a field and no other passphrase opens. -/
theorem opens_only_as_sealed (crypto : KeystoreCrypto) :
    (∀ c : SealCall, Decrypts crypto c → ∀ kek, c.key crypto = .ok kek →
      ∃ sealed, c.run crypto = .ok sealed
        ∧ openSeed crypto sealed c.passphrase = .ok c.seed)
    ∧ (∀ s : ParsedSealed, s.encodeSealed.length < 2 ^ 64 →
      ParsedSealed.decodeSealed s.encodeSealed = .ok s)
    ∧ (∀ b s, ParsedSealed.decodeSealed b = .ok s → s.encodeSealed = b)
    ∧ (∀ log tried, IdealSeals crypto log tried → ∀ sealed,
      ∀ passphrase ∈ tried, ∀ seed,
        openSeed crypto sealed passphrase = .ok seed →
          ∃ c ∈ log, c.passphrase = passphrase ∧ c.seed = seed
            ∧ c.run crypto = .ok sealed)
    ∧ ∀ c tried, IdealSeals crypto {c} tried →
      ∀ s : ParsedSealed, c.run crypto = .ok s.encodeSealed →
        ∀ s' : ParsedSealed, s'.encodeSealed.length < 2 ^ 64 → ∀ passphrase ∈ tried,
          s' ≠ s ∨ passphrase ≠ c.passphrase →
            ∃ e, openSeed crypto s'.encodeSealed passphrase = .error e :=
  ⟨fun _ hdec _ hkek => openSeed_run hdec hkek,
    fun _ hlen => decodeSealed_encodeSealed hlen,
    fun _ _ h => encodeSealed_of_decodeSealed h,
    fun _ _ hideal _ _ htried _ h => sealed_of_openSeed hideal htried h,
    fun _ _ hideal _ hrun _ hlen _ htried hne =>
      only_sealed_opens hideal htried hrun hlen hne⟩

/-- One seal, under parameters of little memory. -/
def oneSeal : SealCall where
  seed := Bytes.fill _ 0xAB
  passphrase := "correct horse battery staple"
  params := ⟨32, 1, 1⟩
  salt := Bytes.fill _ 5
  nonce := Bytes.fill _ 6

/-- What the cipher made of it. -/
def oneCiphertext : List UInt8 := List.replicate 48 0xC7

/-- The primitives where nothing else was sealed: every other passphrase
derives another key, and only that ciphertext decrypts. -/
def oneSealCrypto : KeystoreCrypto where
  acceptsParams params := decide (8 ≤ params.mKib)
  hashPasswordInto passphrase _ _ :=
    if passphrase = oneSeal.passphrase then some (Bytes.fill _ 1)
    else some (Bytes.fill _ 2)
  encrypt _ _ _ _ := some oneCiphertext
  decrypt kek nonce ct aad :=
    if kek = Bytes.fill _ 1 ∧ nonce = oneSeal.nonce ∧ ct = oneCiphertext
        ∧ aad = oneSeal.aad then
      some oneSeal.seed.val
    else none
  escapesDebug _ := false

theorem key_oneSeal : oneSeal.key oneSealCrypto = .ok (Bytes.fill _ 1) := by
  decide

theorem decrypts_oneSeal : Decrypts oneSealCrypto oneSeal := by
  intro kek hkek
  rw [key_oneSeal] at hkek
  cases hkek
  refine ⟨oneCiphertext, rfl, rfl, ?_⟩
  simp [oneSealCrypto]

theorem idealSeals_oneSeal :
    IdealSeals oneSealCrypto {oneSeal} Set.univ where
  authentic kek nonce ct aad pt h := by
    change (if _ then _ else none) = some pt at h
    split at h
    case isTrue heq =>
      obtain ⟨rfl, rfl, rfl, rfl⟩ := heq
      cases h
      exact ⟨oneSeal, rfl, key_oneSeal, rfl, rfl, rfl, rfl⟩
    case isFalse => cases h
  distinct c hc passphrase _ kek hkek hother := by
    cases hc
    rw [key_oneSeal] at hkek
    cases hkek
    by_contra hne
    have hhash : oneSealCrypto.hashPasswordInto passphrase oneSeal.salt.val
        oneSeal.params = some (Bytes.fill _ 2) := if_neg hne
    rw [deriveKek, if_neg (by decide), hhash] at hother
    exact absurd hother (by decide)

/-- The seal opens, and opens no more with half the memory cost or
under another passphrase. -/
theorem opens_only_as_sealed_once :
    ∃ s : ParsedSealed, oneSeal.run oneSealCrypto = .ok s.encodeSealed
      ∧ openSeed oneSealCrypto s.encodeSealed oneSeal.passphrase
        = .ok oneSeal.seed
      ∧ (∃ e, openSeed oneSealCrypto
          { s with params := ⟨16, 1, 1⟩ }.encodeSealed oneSeal.passphrase
        = .error e)
      ∧ ∃ e, openSeed oneSealCrypto s.encodeSealed "letmein" = .error e := by
  obtain ⟨hopens, -, hform, -, honly⟩ := opens_only_as_sealed oneSealCrypto
  have hrun : oneSeal.run oneSealCrypto
      = .ok (oneSeal.fields oneCiphertext).encodeSealed := rfl
  obtain ⟨_, hsealed, hopen⟩ :=
    hopens oneSeal decrypts_oneSeal _ key_oneSeal
  cases hrun.symm.trans hsealed
  refine ⟨oneSeal.fields oneCiphertext, hrun, hopen, ?_, ?_⟩
  · have hlen := length_fields_lt { oneSeal with params := ⟨16, 1, 1⟩ }
      (rfl : oneCiphertext.length = _)
    exact honly oneSeal _ idealSeals_oneSeal _ hrun _ hlen _ trivial
      (.inl (by decide))
  · have hlen := length_fields_lt oneSeal (rfl : oneCiphertext.length = _)
    exact honly oneSeal _ idealSeals_oneSeal _ hrun _ hlen _ trivial
      (.inr (by decide))

end Sidevers.Proofs
