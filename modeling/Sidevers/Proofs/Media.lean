/-
Media: sent by reference, fetched by hash, and kept in files.

They are shown with what fetches them, whatever their size; but they come
through only while they leave room in a frame (`media_arrives_iff`), and up to
ten megabytes are accepted to be sent.

A file of the cache is taken for what it is named after as soon as it is
there, and never written again (`media_cache_verified`): what a write that was
cut short left behind is shown from then on.
-/
import Sidevers.Proofs.DirectClients
import Sidevers.Proofs.Transfers

namespace Sidevers.Proofs

open Sidevers.Core
open Sidevers.Core.Cbor
open Sidevers.Lib
open Sidevers.Net

variable {crypto : Crypto} {crate : Bech32}

-- ================================================================ the hash

theorem hexDigit_digitChar (n : Fin 16) :
    hexDigit (Nat.digitChar n) = some (UInt8.ofNat n)
      ∧ isWhitespace (Nat.digitChar n) = false := by
  revert n
  decide

/-- The two halves of a byte. -/
theorem nibbles (b : UInt8) :
    ∃ high low : Fin 16, (b >>> 4).toNat = high ∧ (b &&& 0x0F).toNat = low
      ∧ (UInt8.ofNat high <<< 4) ||| UInt8.ofNat low = b := by
  obtain ⟨n, hn⟩ : ∃ n : Fin 256, b = UInt8.ofFin n :=
    ⟨b.toFin, (UInt8.ofFin_toFin b).symm⟩
  have hall : ∀ n : Fin 256, let b := UInt8.ofFin n
      (b >>> 4).toNat < 16 ∧ (b &&& 0x0F).toNat < 16
        ∧ (UInt8.ofNat (b >>> 4).toNat <<< 4)
            ||| UInt8.ofNat (b &&& 0x0F).toNat = b := by
    decide +kernel
  obtain ⟨hhigh, hlow, heq⟩ := hall n
  subst hn
  exact ⟨⟨_, hhigh⟩, ⟨_, hlow⟩, rfl, rfl, heq⟩

theorem hexDecode_pair {c d : Char} {high low : UInt8} (rest : List Char)
    (hc : hexDigit c = some high) (hd : hexDigit d = some low) :
    hexDecode (c :: d :: rest)
      = (hexDecode rest).map fun bs => ((high <<< 4) ||| low) :: bs := by
  rw [hexDecode, hc, hd]
  cases hexDecode rest <;> rfl

/-- A hash is read back from its digits. -/
theorem hexDecode_hexEncode (bs : List UInt8) :
    hexDecode (trim (hexEncode bs)).toList = some bs := by
  have hplain : ∀ c ∈ bs.flatMap fun b : UInt8 =>
      [Nat.digitChar (b >>> 4).toNat, Nat.digitChar (b &&& 0x0F).toNat],
      isWhitespace c = false := by
    intro c hc
    obtain ⟨b, -, hc⟩ := List.mem_flatMap.mp hc
    obtain ⟨high, low, hhigh, hlow, -⟩ := nibbles b
    rw [hhigh, hlow] at hc
    rcases List.mem_cons.mp hc with rfl | hc
    · exact (hexDigit_digitChar high).2
    · obtain rfl := List.mem_singleton.mp hc
      exact (hexDigit_digitChar low).2
  rw [hexEncode, trim_ofList hplain, String.toList_ofList]
  clear hplain
  induction bs with
  | nil => rfl
  | cons b bs ih =>
      obtain ⟨high, low, hhigh, hlow, hb⟩ := nibbles b
      rw [List.flatMap_cons, hhigh, hlow, List.cons_append,
        List.cons_append, List.nil_append,
        hexDecode_pair _ (hexDigit_digitChar high).1
          (hexDigit_digitChar low).1, ih, Option.map_some, hb]

theorem fetchMedia_hexEncode (crypto : Crypto) (store : ObjectStore)
    (cache : MediaCache) (hash : Bytes 32) (stream : Option (List UInt8))
    (write : CacheWrite) :
    fetchMedia crypto store cache (hexEncode hash.val) stream write
      = fetchHashed crypto store cache hash stream write := by
  unfold fetchMedia
  rw [hexDecode_hexEncode]
  dsimp only
  rw [dif_pos hash.property]

-- ============================================================ the message

/-- What passes the checks is not empty nor too large, and of a type that the
kind has. -/
theorem validateMedia_ok {what otherwise mime : String}
    {starts : List (List UInt8 × String)} {bytes : List UInt8}
    (h : validateMedia what starts otherwise bytes = .ok mime) :
    bytes.length ≤ mediaMaxBytes
      ∧ ∃ start, (start, mime) ∈ starts ∧ start <+: bytes := by
  unfold validateMedia at h
  split at h
  · cases h
  · split at h
    · cases h
    case isFalse hsize =>
      refine ⟨Nat.le_of_not_lt hsize, ?_⟩
      split at h
      case h_1 s hfind =>
        cases h
        have hstart := List.find?_some hfind
        exact ⟨s.1, List.mem_of_find?_eq_some hfind,
          List.isPrefixOf_iff_prefix.mp hstart⟩
      case h_2 => cases h

theorem mediaKind_ok {kind mime : String} {directKind : DirectKind}
    {bytes : List UInt8} (h : mediaKind kind bytes = .ok (mime, directKind)) :
    bytes.length ≤ mediaMaxBytes ∧ mime.utf8ByteSize ≤ 10
      ∧ (kind = "image" ∧ directKind = .image
        ∨ kind = "voice" ∧ directKind = .voice) := by
  have hmapped {α β : Type} {f : α → β} {r : Except String α} {b : β}
      (h : r.map f = .ok b) : ∃ a, r = .ok a ∧ f a = b := by
    cases r with
    | error e => cases h
    | ok a => exact ⟨a, rfl, Except.ok.inj h⟩
  unfold mediaKind at h
  by_cases himage : kind = "image"
  · rw [if_pos himage] at h
    obtain ⟨m, hm, heq⟩ := hmapped h
    cases heq
    obtain ⟨hsize, start, hmem, -⟩ := validateMedia_ok hm
    refine ⟨hsize, ?_, .inl ⟨himage, rfl⟩⟩
    rcases List.mem_cons.mp hmem with heq | hmem
    · cases heq
      decide
    · cases List.mem_singleton.mp hmem
      decide
  · rw [if_neg himage] at h
    by_cases hvoice : kind = "voice"
    · rw [if_pos hvoice] at h
      obtain ⟨m, hm, heq⟩ := hmapped h
      cases heq
      obtain ⟨hsize, start, hmem, -⟩ := validateMedia_ok hm
      refine ⟨hsize, ?_, .inr ⟨hvoice, rfl⟩⟩
      rcases List.mem_cons.mp hmem with heq | hmem
      · cases heq
        decide
      · cases List.mem_singleton.mp hmem
        decide
    · rw [if_neg hvoice] at h
      cases h

/-- The media that a message tells of. -/
def mediaDm (sender recipient kind mime : String) (hash : Bytes 32)
    (size receivedAt : UInt64) : InboxDm :=
  ⟨sender, recipient, "", receivedAt, kind, some (hexEncode hash.val),
    some size, some mime⟩

theorem length_mediaReference (bytes : List UInt8) (mime : String) :
    (mediaReference crypto bytes mime).encode.length
      = 63 + headSize (UInt64.ofNat bytes.length) + textSize mime := by
  unfold mediaReference Reference.encode Reference.encode.encodeAll
  simp only [length_encodeMap, List.map_cons, List.map_nil, List.sum_cons,
    List.sum_nil, length_key, length_encodeArray, length_string, length_val,
    length_uint, length_text]
  change 1 + (5 + 1 + (5 + 34 + (5 + headSize _ + (5 + textSize mime
    + (6 + 1 + 0))))) = _
  omega

/-- The payload of a media message is read. -/
theorem decode_mediaPayload (crypto : Crypto) {kind mime : String}
    {directKind : DirectKind} {bytes : List UInt8}
    (h : mediaKind kind bytes = .ok (mime, directKind)) :
    let reference := mediaReference crypto bytes mime
    let payload : DirectMessagePayload :=
      ⟨directKind, .referenceBytes reference.encode, none, none⟩
    Reference.decode reference.encode = .ok reference
      ∧ DirectMessagePayload.decode payload.encode = .ok payload := by
  intro reference payload
  obtain ⟨-, hmime, hkinds⟩ := mediaKind_ok h
  have hfits : ReferenceFits (defaultDepDepthLimit + 1) reference :=
    ⟨Nat.zero_le _, Nat.zero_le _, nofun⟩
  have hparse : DirectKind.parse directKind.asStr = directKind
      ∧ textSize directKind.asStr = 6 := by
    rcases hkinds with ⟨-, rfl⟩ | ⟨-, rfl⟩ <;> decide
  have hreference : reference.encode.length ≤ 91 := by
    have hsize := headSize_le (UInt64.ofNat bytes.length)
    have htext : textSize mime ≤ 9 + mime.utf8ByteSize := stringSize_le _
    rw [length_mediaReference]
    omega
  have hpayload : payload.encode.length
      = 1 + (5 + reference.encode.length + (5 + textSize directKind.asStr
        + (7 + 1 + (9 + 1 + 0)))) := by
    unfold DirectMessagePayload.encode
    simp only [length_encodeMap, List.map_cons, List.map_nil, List.sum_cons,
      List.sum_nil, length_key, length_text, length_orNull]
    rfl
  constructor
  · exact (reads_referenceInner hfits).value (by omega)
  · refine ((endsIff_directMessage hfits rfl hparse.1).value ?_).1 ?_
    · omega
    · have hspan : span reference = 2 := rfl
      rw [hspan]
      decide

theorem buildInboxDm_media (crypto : Crypto) (sender recipient : String)
    (receivedAt : UInt64) {kind mime : String} {directKind : DirectKind}
    {bytes : List UInt8} (h : mediaKind kind bytes = .ok (mime, directKind)) :
    let payload : DirectMessagePayload :=
      ⟨directKind, .referenceBytes (mediaReference crypto bytes mime).encode,
        none, none⟩
    buildInboxDm sender recipient payload.encode receivedAt
      = mediaDm sender recipient kind mime (crypto.blake3 bytes)
        (UInt64.ofNat bytes.length) receivedAt := by
  intro payload
  obtain ⟨hreference, hpayload⟩ := decode_mediaPayload crypto h
  obtain ⟨-, -, hkinds⟩ := mediaKind_ok h
  unfold buildInboxDm decodeDmPlaintext
  rw [hpayload]
  dsimp only
  rw [hreference]
  rcases hkinds with ⟨rfl, rfl⟩ | ⟨rfl, rfl⟩ <;> rfl

-- ============================================================== the fetch

theorem reads_readRange (r : ByteRange) :
    Reads readRange (encodeRange r) r := by
  refine .map (by decide : 2 ≤ maxCborEntries) ?_
  refine .field (reads_readU64 r.stop) ?_
  exact .field (reads_readU64 r.start) (.pure r)

theorem encodeMap_not_null (entries : List MapEntry) :
    ∃ ib tl, encodeMap entries = ib :: tl ∧ ib ≠ simpleNull := by
  obtain ⟨ib, tl, hhead, hmajor⟩ :=
    writeHead_major (m := 5) (by decide) (UInt64.ofNat entries.length)
  have hmap : mtMap = (5 : UInt8) <<< 5 := rfl
  rw [encodeMap, hmap, hhead]
  exact ⟨ib, _, rfl, not_null_of_major hmajor (by decide)⟩

/-- The request for a whole object is read. -/
theorem decode_storageGet (hash : Bytes 32) :
    StorageGetPayload.decode (StorageGetPayload.encode ⟨hash, none⟩)
      = .ok ⟨hash, none⟩ := by
  have hread : Reads StorageGetPayload.readFields
      (StorageGetPayload.encode ⟨hash, none⟩) ⟨hash, none⟩ := by
    refine .map (by decide : 2 ≤ maxCborEntries) ?_
    refine .field (reads_readExact _ hash) ?_
    exact .field (reads_readOrNull (fun _ => encodeMap_not_null _) reads_readRange
      none)
      (.pure _)
  refine hread.value ?_
  unfold StorageGetPayload.encode
  simp only [length_encodeMap, List.map_cons, List.map_nil, List.sum_cons,
    List.sum_nil, length_key, length_string, length_val, length_orNull]
  change 1 + (5 + 34 + (6 + 1 + 0)) < _
  decide

variable {m : ServingNode crypto} {side : Signer crypto} {peer : Address}
  {hash : Bytes 32} {bytes : List UInt8} {pinned : Bool} {now : UInt64}
  {nonce : Nonce} {io : ServeIo}

/-- What is answered of an object that is there. -/
theorem storageGet_there (hstored : m.store hash = some (bytes, pinned))
    (hhash : crypto.blake3 bytes = hash) :
    m.storageGet (storageGetEnvelope side peer hash now nonce) io
      = m.answering (m.signResponse side.publicBytes .storageHave
        (StorageHavePayload.encode ⟨hash, bytes, true⟩) (io.clock 0)
        (io.nonces 0)) := by
  have hpayload : (storageGetEnvelope side peer hash now nonce).payload
      = StorageGetPayload.encode ⟨hash, none⟩ := rfl
  have hbytes : m.requestedBytes ⟨hash, none⟩ = some bytes := by
    unfold ServingNode.requestedBytes ObjectStore.get
    dsimp only
    rw [hstored]
    dsimp only
    rw [if_pos hhash]
  unfold ServingNode.storageGet
  rw [hpayload, decode_storageGet]
  dsimp only
  rw [hbytes]
  rfl

/-- A HAVE that is sent is fetched. -/
theorem fetchObject_have {signer : Signer crypto} {frame : List UInt8}
    (hhash : crypto.blake3 bytes = hash)
    (hframe : sendEnvelope (.signWith .storageHave signer (some peer)
      (StorageHavePayload.encode ⟨hash, bytes, true⟩) now nonce)
        = .ok frame) :
    fetchObject crypto hash frame = .ok (some bytes) := by
  have hdecode : StorageHavePayload.decode
      (StorageHavePayload.encode ⟨hash, bytes, true⟩)
        = .ok ⟨hash, bytes, true⟩ :=
    (reads_storageHave _).value (length_payload_lt hframe)
  have htype : (SignedEnvelope.signWith .storageHave signer (some peer)
    (StorageHavePayload.encode ⟨hash, bytes, true⟩) now nonce).messageType
      = .storageHave := rfl
  have hpayload : (SignedEnvelope.signWith .storageHave signer (some peer)
    (StorageHavePayload.encode ⟨hash, bytes, true⟩) now nonce).payload
      = StorageHavePayload.encode ⟨hash, bytes, true⟩ := rfl
  unfold fetchObject
  rw [recvEnvelope_signWith hframe]
  dsimp only
  rw [if_pos htype, hpayload, hdecode]
  dsimp only
  rw [if_neg (not_not.mpr hhash)]

/-- What is fetched has the hash. -/
theorem blake3_of_fetch {stream : List UInt8}
    (h : fetchObject crypto hash stream = .ok (some bytes)) :
    crypto.blake3 bytes = hash := by
  unfold fetchObject at h
  split at h
  · cases h
  · split at h
    · split at h
      · cases h
      · split at h
        · cases h
        case isFalse hhash =>
          cases h
          exact not_not.mp hhash
    · split at h
      · cases h
      · cases h

/-- An object is fetched iff it leaves room in a frame for the rest of its
HAVE. -/
theorem fetchObject_there (hstored : m.store hash = some (bytes, pinned))
    (hhash : crypto.blake3 bytes = hash) :
    fetchObject crypto hash (answerStream
        (m.storageGet (storageGetEnvelope side peer hash now nonce) io))
      = if bytes.length + headSize (io.clock 0) ≤ 65289 then .ok (some bytes)
        else .error (.framing .readExact) := by
  have hsize : (m.signResponse side.publicBytes .storageHave
      (StorageHavePayload.encode ⟨hash, bytes, true⟩) (io.clock 0)
      (io.nonces 0)).toWireBytes.length
        = envelopeSize .storageHave (io.clock 0) (haveSize bytes.length) := by
    rw [← length_storageHave ⟨hash, bytes, true⟩]
    exact length_signWith ..
  have hsent := sendEnvelope_ok_iff (m.signResponse side.publicBytes
    .storageHave (StorageHavePayload.encode ⟨hash, bytes, true⟩)
    (io.clock 0) (io.nonces 0))
  rw [hsize] at hsent
  replace hsent := hsent.trans (inFrame_storageHave_iff ..)
  rw [storageGet_there hstored hhash]
  unfold answerStream ServingNode.answering
  dsimp only
  cases hframe : sendEnvelope (m.signResponse side.publicBytes .storageHave
      (StorageHavePayload.encode ⟨hash, bytes, true⟩) (io.clock 0)
      (io.nonces 0)) with
  | ok frame =>
      rw [if_pos (hsent.mp ⟨frame, hframe⟩)]
      exact fetchObject_have hhash hframe
  | error e =>
      rw [if_neg]
      · rfl
      · rw [← hsent, hframe]
        rintro ⟨frame, hframe⟩
        cases hframe

-- =============================================================== the media

variable {sealTo : Seal crypto} {openSealed : OpenSealed crypto}
  {n n' : ServingNode crypto} {kind : String} {frame : List UInt8}

theorem sendDmMedia_ok (h : sendDmMedia sealTo n peer kind bytes now nonce
      = .ok (n', .ok frame)) :
    n' = { n with store := n.store.put crypto bytes }
      ∧ ∃ mime directKind, mediaKind kind bytes = .ok (mime, directKind)
        ∧ sendDm sealTo n.side peer (DirectMessagePayload.encode
          ⟨directKind,
            .referenceBytes (mediaReference crypto bytes mime).encode, none,
            none⟩) now nonce = .ok frame := by
  unfold sendDmMedia at h
  cases hkind : mediaKind kind bytes with
  | error e =>
      rw [hkind] at h
      cases h
  | ok found =>
      obtain ⟨mime, directKind⟩ := found
      rw [hkind] at h
      have hboth := Except.ok.inj h
      exact ⟨(congrArg Prod.fst hboth).symm, mime, directKind, rfl,
        congrArg Prod.snd hboth⟩

/-- What is put is there, unless other bytes of its hash are. -/
theorem put_there {store : ObjectStore}
    (hstored : ∀ found pinned, store (crypto.blake3 bytes)
      = some (found, pinned) → found = bytes) :
    ∃ pinned, store.put crypto bytes (crypto.blake3 bytes)
      = some (bytes, pinned) := by
  unfold ObjectStore.put
  cases hat : store (crypto.blake3 bytes) with
  | none => exact ⟨false, Table.insertOrIgnore_of_none _ hat⟩
  | some found =>
      obtain ⟨found, pinned⟩ := found
      obtain rfl := hstored _ _ hat
      exact ⟨pinned, Table.insertOrIgnore_of_some _ _ hat⟩

/-- For all media that are sent, of at most ten megabytes: the other side is
shown their kind, hash, size and type. Whoever holds them, who asks for them
gets them, and keeps them in a file, iff they leave 247 bytes of the frame to
the rest and the clock; else the fetch fails, every time. -/
theorem media_arrives_iff (crypto : Crypto) (crate : Bech32)
    (sealTo : Seal crypto) (openSealed : OpenSealed crypto)
    (hseal : SealsOpen sealTo openSealed) (n n' : ServingNode crypto)
    (peer : Signer crypto) (kind : String) (bytes : List UInt8)
    (now : UInt64) (nonce : Nonce) (frame : List UInt8)
    (hstored : ∀ found pinned, n.store (crypto.blake3 bytes)
      = some (found, pinned) → found = bytes)
    (hsend : sendDmMedia sealTo n peer.publicBytes kind bytes now nonce
      = .ok (n', .ok frame)) :
    bytes.length ≤ mediaMaxBytes
      ∧ (∃ pinned, n'.store (crypto.blake3 bytes) = some (bytes, pinned))
      ∧ (∃ env dm mime directKind, recvEnvelope crypto frame = .ok env
        ∧ openDirectMessage openSealed peer env = some dm
        ∧ mediaKind kind bytes = .ok (mime, directKind)
        ∧ ∀ source clock ok, (Drained.mk source dm clock ok).event crate
          = mediaDm (sideText crate n.side.publicBytes)
            (sideText crate peer.publicBytes) kind mime
            (crypto.blake3 bytes) (UInt64.ofNat bytes.length) clock)
      ∧ ∀ (m : ServingNode crypto) pinned,
        m.store (crypto.blake3 bytes) = some (bytes, pinned) →
        ∀ (side : Signer crypto) dialled askedAt askNonce io
          (store : ObjectStore) (cache : MediaCache),
          store (crypto.blake3 bytes) = none →
          cache (crypto.blake3 bytes) = none →
          fetchMedia crypto store cache (hexEncode (crypto.blake3 bytes).val)
              (some (answerStream (m.storageGet (storageGetEnvelope side
                dialled (crypto.blake3 bytes) askedAt askNonce) io))) .done
            = if bytes.length + headSize (io.clock 0) ≤ 65289 then
                (.ok (crypto.blake3 bytes),
                  cache.insert (crypto.blake3 bytes) bytes)
              else (.error (.fetch (.framing .readExact)), cache) := by
  obtain ⟨rfl, mime, directKind, hkind, hsent⟩ := sendDmMedia_ok hsend
  obtain ⟨env, hrecv, harrives⟩ := arrives_sendDm hseal hsent
  obtain ⟨hopened, hevent⟩ := harrives.opened crate
  refine ⟨(mediaKind_ok hkind).1, put_there hstored,
    ⟨env, _, mime, directKind, hrecv, hopened, hkind, ?_⟩, ?_⟩
  · intro source clock ok
    rw [hevent]
    exact buildInboxDm_media crypto _ _ clock hkind
  · intro m pinned hthere side dialled askedAt askNonce io store cache hlocal
      hcache
    rw [fetchMedia_hexEncode]
    unfold fetchHashed
    rw [hcache, hlocal]
    dsimp only
    rw [fetchObject_there hthere rfl]
    by_cases hfits : bytes.length + headSize (io.clock 0) ≤ 65289
    · rw [if_pos hfits, if_pos hfits]
      rfl
    · rw [if_neg hfits, if_neg hfits]

/-- The beginning of a photo. -/
def photo : List UInt8 := [0xFF, 0xD8, 0xFF]

/-- A photo that is sent and fetched. -/
theorem media_arrives_iff_photo :
    let hash := Crypto.legible.blake3 photo
    ∃ n' frame, sendDmMedia sealMarked freshNode reader.publicBytes "image"
        photo 1000000000 (Bytes.fill 16 0) = .ok (n', .ok frame)
      ∧ (fetchMedia Crypto.legible .empty .empty (hexEncode hash.val)
        (some (answerStream (n'.storageGet (storageGetEnvelope reader
          freshNode.side.publicBytes hash 1000000000 (Bytes.fill 16 1))
          stillIo))) .done).1 = .ok hash := by
  intro hash
  obtain ⟨frame, hframe⟩ : ∃ frame, sendDm sealMarked freshNode.side
      reader.publicBytes (DirectMessagePayload.encode ⟨.image,
        .referenceBytes (mediaReference Crypto.legible photo
          "image/jpeg").encode, none, none⟩) 1000000000 (Bytes.fill 16 0)
        = .ok frame := sendDm_ok rfl (by decide +kernel)
  have hsend : sendDmMedia sealMarked freshNode reader.publicBytes "image"
      photo 1000000000 (Bytes.fill 16 0)
        = .ok ({ freshNode with
            store := freshNode.store.put Crypto.legible photo }, .ok frame) := by
    rw [← hframe]
    rfl
  obtain ⟨-, ⟨pinned, hthere⟩, -, hfetch⟩ := media_arrives_iff Crypto.legible
    bip350 sealMarked openMarked sealsOpen_marked freshNode _ reader "image"
    photo _ _ frame (fun _ _ h => by cases h) hsend
  have hend := hfetch _ pinned hthere reader freshNode.side.publicBytes
    1000000000 (Bytes.fill 16 1) stillIo .empty .empty rfl rfl
  rw [if_pos (by decide)] at hend
  exact ⟨_, frame, hsend, congrArg Prod.fst hend⟩

-- =============================================================== the files

variable {cache cache' : MediaCache}

/-- A call writes a file that was not there: an object of its hash, or the
beginning of one if the write is cut short. -/
def WritesFile (crypto : Crypto) (cache : MediaCache) (c : FetchCall)
    (cache' : MediaCache) : Prop :=
  ∃ hash : Bytes 32, ∃ whole file,
    hexDecode (trim c.hashHex).toList = some hash.val
    ∧ cache hash = none ∧ crypto.blake3 whole = hash
    ∧ cache' = cache.insert hash file
    ∧ (file = whole ∨ ∃ k, c.write = .cut (some k) ∧ file = whole.take k)

theorem cacheObject_cases {c : FetchCall} (hash : Bytes 32)
    {whole : List UInt8}
    (hhex : hexDecode (trim c.hashHex).toList = some hash.val)
    (hnone : cache hash = none) (hhash : crypto.blake3 whole = hash)
    (h : (cacheObject cache hash whole c.write).2 = cache') :
    cache' = cache ∨ WritesFile crypto cache c cache' := by
  cases hwrite : c.write with
  | done =>
      rw [hwrite] at h
      exact .inr ⟨hash, whole, whole, hhex, hnone, hhash, h.symm, .inl rfl⟩
  | cut written =>
      rw [hwrite] at h
      cases written with
      | none => exact .inl h.symm
      | some k =>
          exact .inr ⟨hash, whole, _, hhex, hnone, hhash, h.symm,
            .inr ⟨k, hwrite, rfl⟩⟩

/-- What a call does to the files. -/
theorem cacheStep_cases {c : FetchCall}
    (h : cacheStep crypto cache c = some cache') :
    cache' = cache ∨ WritesFile crypto cache c cache' := by
  replace h := Option.some.inj h
  unfold fetchMedia at h
  split at h
  · exact .inl h.symm
  case h_2 raw hhex =>
    split at h
    case isFalse => exact .inl h.symm
    case isTrue hlen =>
      unfold fetchHashed at h
      split at h
      · exact .inl h.symm
      case h_2 hnone =>
        split at h
        case h_1 bytes pinned hlocal =>
          split at h
          case isTrue hhash =>
            exact cacheObject_cases ⟨raw, hlen⟩ hhex hnone hhash h
          case isFalse => exact .inl h.symm
        case h_2 =>
          split at h
          · exact .inl h.symm
          case h_2 stream =>
            split at h
            · exact .inl h.symm
            · exact .inl h.symm
            case h_3 bytes hfetch =>
              exact cacheObject_cases ⟨raw, hlen⟩ hhex hnone
                (blake3_of_fetch hfetch) h

/-- A file stays as it is. -/
theorem file_step {c : FetchCall} {file : List UInt8}
    (hfile : cache hash = some file)
    (hstep : cacheStep crypto cache c = some cache') :
    cache' hash = some file := by
  rcases cacheStep_cases hstep with rfl | ⟨h, whole, new, -, hnone, -, rfl, -⟩
  · exact hfile
  · rw [Table.insert_of_ne _ _ ?_]
    · exact hfile
    · rintro rfl
      rw [hnone] at hfile
      cases hfile

/-- The files begin as objects of their hashes do. -/
def Begun (crypto : Crypto) (cache : MediaCache) : Prop :=
  ∀ hash file, cache hash = some file →
    ∃ whole, crypto.blake3 whole = hash ∧ file <+: whole

theorem begun_step {c : FetchCall} (h : Begun crypto cache)
    (hstep : cacheStep crypto cache c = some cache') :
    Begun crypto cache' := by
  rcases cacheStep_cases hstep with
    rfl | ⟨written, whole, new, -, -, hhash, rfl, hnew⟩
  · exact h
  · intro hash file hfile
    by_cases heq : hash = written
    · subst heq
      rw [Table.insert_self] at hfile
      cases hfile
      refine ⟨whole, hhash, ?_⟩
      rcases hnew with rfl | ⟨k, -, rfl⟩
      · exact List.prefix_rfl
      · exact List.take_prefix k whole
    · rw [Table.insert_of_ne _ _ heq] at hfile
      exact h hash file hfile

/-- The call does not leave a part of this object. -/
def NotCut (hash : Bytes 32) (_ : MediaCache) (c : FetchCall) : Prop :=
  hexDecode (trim c.hashHex).toList = some hash.val →
    ∀ k, c.write ≠ .cut (some k)

/-- Its file has the hash it is named by. -/
def Verified (crypto : Crypto) (hash : Bytes 32) (cache : MediaCache) :
    Prop :=
  ∀ file, cache hash = some file → crypto.blake3 file = hash

theorem verified_step {c : FetchCall} (hcut : NotCut hash cache c)
    (h : Verified crypto hash cache)
    (hstep : cacheStep crypto cache c = some cache') :
    Verified crypto hash cache' := by
  rcases cacheStep_cases hstep with
    rfl | ⟨written, whole, new, hhex, -, hhash, rfl, hnew⟩
  · exact h
  · intro file hfile
    by_cases heq : hash = written
    · subst heq
      rw [Table.insert_self] at hfile
      cases hfile
      rcases hnew with rfl | ⟨k, hwrite, -⟩
      · exact hhash
      · exact absurd hwrite (hcut hhex k)
    · rw [Table.insert_of_ne _ _ heq] at hfile
      exact h file hfile

/-- In every run of calls, whatever they are asked for and whatever peers
answer: a file is the beginning of an object of the hash it is named by, and
has that hash itself unless a write of it was cut short. It is never written
again, and every later call for it returns it. -/
theorem media_cache_verified (crypto : Crypto) (calls : List FetchCall)
    (cache : MediaCache)
    (hrun : run (cacheStep crypto) .empty calls = some cache)
    (hash : Bytes 32) (file : List UInt8) (hfile : cache hash = some file) :
    (∃ whole, crypto.blake3 whole = hash ∧ file <+: whole)
      ∧ ((∀ c ∈ calls, ∀ k,
          hexDecode (trim c.hashHex).toList = some hash.val →
            c.write ≠ .cut (some k)) → crypto.blake3 file = hash)
      ∧ ∀ later cache', run (cacheStep crypto) cache later = some cache' →
        cache' hash = some file
          ∧ ∀ store stream write,
            fetchMedia crypto store cache' (hexEncode hash.val) stream write
              = (.ok hash, cache') := by
  have hbegun : Begun crypto cache :=
    run_induct (fun _ _ _ _ h hstep => begun_step h hstep) (along_true _ _)
      (fun _ _ h => by cases h) hrun
  refine ⟨hbegun hash file hfile, fun hcalls => ?_,
    fun later cache' hlater => ?_⟩
  · have hcut : Along (cacheStep crypto) (NotCut hash) .empty calls :=
      along_of_forall _ _ fun c hc cache hhex k => hcalls c hc k hhex
    have hverified : Verified crypto hash cache :=
      run_induct (fun _ _ _ hok h hstep => verified_step hok h hstep) hcut
        (fun _ h => by cases h) hrun
    exact hverified file hfile
  · have hstays : cache' hash = some file :=
      run_induct (fun _ _ _ _ h hstep => file_step h hstep) (along_true _ _)
        hfile hlater
    refine ⟨hstays, fun store stream write => ?_⟩
    rw [fetchMedia_hexEncode]
    unfold fetchHashed
    rw [hstays]

/-- A photo that is there, of which one byte is written. -/
theorem media_cache_verified_cut :
    let hash := Crypto.legible.blake3 photo
    let call : FetchCall := ⟨ObjectStore.put Crypto.legible .empty photo,
      hexEncode hash.val, none, .cut (some 1)⟩
    ∃ cache, run (cacheStep Crypto.legible) .empty [call] = some cache
      ∧ cache hash = some [0xFF]
      ∧ fetchMedia Crypto.legible .empty cache (hexEncode hash.val) none .done
        = (.ok hash, cache) := by
  intro hash call
  have hcall : fetchMedia Crypto.legible call.store .empty call.hashHex
      call.stream call.write
        = (.error .cacheWrite, Table.empty.insert hash [0xFF]) := by
    rw [fetchMedia_hexEncode]
    rfl
  have hrun : run (cacheStep Crypto.legible) .empty [call]
      = some (Table.empty.insert hash [0xFF]) := by
    rw [run_cons, cacheStep, hcall]
    rfl
  have hfile : Table.empty.insert hash [0xFF] hash = some [(0xFF : UInt8)] :=
    Table.insert_self ..
  exact ⟨_, hrun, hfile, ((media_cache_verified Crypto.legible [call] _ hrun
    hash [0xFF] hfile).2.2 [] _ rfl).2 .empty none .done⟩

end Sidevers.Proofs
