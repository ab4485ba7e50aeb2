/-
What a STORAGE_OFFER exchange leaves behind when it fails.

Up to the call of `put` nothing is written, and of the HAVE only one that
names the offered hash gets there (`serveHave_none`, `serveHave_some`). `put`
does not compare: it stores the bytes under their own hash. So a failed
exchange leaves the store and the table as they were iff the bytes that get
there hash to the offered hash and are stored, or `put` leaves nothing of them
(`failed_ingest_unchanged_iff`).
-/
import Sidevers.Net.Ingest
import Sidevers.Proofs.Chunking
import Sidevers.Proofs.StorageSteps

namespace Sidevers.Proofs

open Sidevers.Core
open Sidevers.Core.Cbor
open Sidevers.Lib
open Sidevers.Net

variable {crypto : Crypto}

-- ================================================================== put

/-- No call under `put` fails that is made for the bytes. -/
def PutSucceeds (io : PutIo) (bytes : List UInt8) : Prop :=
  io.insert = false ∧ (inlineMax < bytes.length →
    io.createDirAll = false ∧ io.write = none)

/-- The row of the bytes is there already, or not added; and so for their
blob. -/
def PutLeaves (crypto : Crypto) (io : PutIo) (s : ObjectFiles)
    (bytes : List UInt8) : Prop :=
  let rowStays := io.insert = true ∨ s.has (crypto.blake3 bytes) = true
  if bytes.length ≤ inlineMax then rowStays
  else
    io.createDirAll = true
      ∨ s.blobs (crypto.blake3 bytes) = io.left bytes
        ∧ (io.write ≠ none ∨ rowStays)

/-- Where nothing fails it is `put`. -/
theorem putIo_fine (s : ObjectFiles) (bytes : List UInt8) :
    s.putIo crypto .fine bytes
      = (.ok (s.put crypto bytes).1, (s.put crypto bytes).2) := by
  unfold ObjectFiles.putIo ObjectFiles.put
  split
  · rfl
  · rfl

theorem has_iff {s : ObjectFiles} {hash : Bytes 32} :
    s.has hash = true ↔ s.rows.get hash ≠ none :=
  Option.isSome_iff_ne_none

/-- A row is added iff there is none. -/
theorem insertObject_eq_self_iff {s : ObjectFiles} {bytes : List UInt8}
    {inline : Option (List UInt8)} {now : UInt64} :
    s.insertObject crypto bytes inline now = s
      ↔ s.has (crypto.blake3 bytes) = true := by
  rw [has_iff]
  constructor
  · intro h hnone
    have hget := congrArg (fun s => s.rows.get (crypto.blake3 bytes)) h
    simp only [ObjectFiles.insertObject, Rows.get_insertOrIgnore, if_pos]
      at hget
    rw [hnone] at hget
    cases hget
  · intro hthere
    have hmem : crypto.blake3 bytes ∈ s.rows.rows.map Prod.fst := by
      by_contra hnot
      exact hthere (Rows.get_eq_none_iff.mpr hnot)
    simp only [ObjectFiles.insertObject, Rows.insertOrIgnore, dif_pos hmem]

theorem has_insertObject {s : ObjectFiles} {bytes : List UInt8}
    {inline : Option (List UInt8)} {now : UInt64} {hash : Bytes 32} :
    (s.insertObject crypto bytes inline now).has hash = true
      ↔ s.has hash = true ∨ hash = crypto.blake3 bytes := by
  simp only [has_iff, ObjectFiles.insertObject, Rows.get_insertOrIgnore]
  by_cases heq : hash = crypto.blake3 bytes
  · simp [heq]
  · simp [heq]

/-- What is returned is the hash of the bytes. -/
theorem putIo_ok_iff {io : PutIo} {s : ObjectFiles} {bytes : List UInt8}
    {addr : Bytes 32} :
    (s.putIo crypto io bytes).1 = .ok addr
      ↔ crypto.blake3 bytes = addr ∧ PutSucceeds io bytes := by
  obtain ⟨createDirAll, write, insert⟩ := io
  unfold ObjectFiles.putIo PutSucceeds
  by_cases hinline : bytes.length ≤ inlineMax
  · have hsmall : ¬ inlineMax < bytes.length := Nat.not_lt.mpr hinline
    cases insert <;> simp [hinline, hsmall]
  · have hlarge : inlineMax < bytes.length := Nat.lt_of_not_le hinline
    cases createDirAll <;> cases write <;> cases insert <;>
      simp [hinline, hlarge]

theorem has_putIo {io : PutIo} {s : ObjectFiles} {bytes : List UInt8}
    {hash : Bytes 32} :
    (s.putIo crypto io bytes).2.has hash = true
      ↔ s.has hash = true
        ∨ hash = crypto.blake3 bytes ∧ PutSucceeds io bytes := by
  have hblobs (blobs) : ({ s with blobs } : ObjectFiles).has hash = s.has hash :=
    rfl
  obtain ⟨createDirAll, write, insert⟩ := io
  unfold ObjectFiles.putIo PutSucceeds
  by_cases hinline : bytes.length ≤ inlineMax
  · have hsmall : ¬ inlineMax < bytes.length := Nat.not_lt.mpr hinline
    cases insert <;> simp [hinline, hsmall, has_insertObject]
  · have hlarge : inlineMax < bytes.length := Nat.lt_of_not_le hinline
    cases createDirAll <;> cases write <;> cases insert <;>
      simp [hinline, hlarge, has_insertObject, ObjectFiles.writeBlob, hblobs]

theorem setBlob_eq_self_iff {s : ObjectFiles} {hash : Bytes 32}
    {left : Option (List UInt8)} :
    { s with blobs := Function.update s.blobs hash left } = s
      ↔ s.blobs hash = left := by
  constructor
  · intro h
    have hblobs := congrArg ObjectFiles.blobs h
    exact (Function.update_eq_self_iff.mp hblobs).symm
  · intro h
    rw [Function.update_eq_self_iff.mpr h.symm]

theorem putIo_eq_self_iff {io : PutIo} {s : ObjectFiles}
    {bytes : List UInt8} :
    (s.putIo crypto io bytes).2 = s ↔ PutLeaves crypto io s bytes := by
  have hwrite : s.writeBlob crypto bytes = s
      ↔ s.blobs (crypto.blake3 bytes) = some bytes := setBlob_eq_self_iff
  -- the row and the blob are written apart
  have hboth : (s.writeBlob crypto bytes).insertObject crypto bytes none
        s.unixNow = s
      ↔ s.blobs (crypto.blake3 bytes) = some bytes
        ∧ s.has (crypto.blake3 bytes) = true := by
    constructor
    · intro h
      have hblobs : s.writeBlob crypto bytes = s := by
        have heq := congrArg ObjectFiles.blobs h
        change (s.writeBlob crypto bytes).blobs = s.blobs at heq
        exact congrArg (fun blobs => { s with blobs }) heq
      rw [hblobs] at h
      exact ⟨hwrite.mp hblobs, insertObject_eq_self_iff.mp h⟩
    · rintro ⟨hblob, hrow⟩
      rw [hwrite.mpr hblob]
      exact insertObject_eq_self_iff.mpr hrow
  have hclock : (s.writeBlob crypto bytes).unixNow = s.unixNow := rfl
  obtain ⟨createDirAll, write, insert⟩ := io
  unfold ObjectFiles.putIo PutLeaves PutIo.left
  by_cases hinline : bytes.length ≤ inlineMax
  · cases insert <;> simp [hinline, insertObject_eq_self_iff]
  · cases createDirAll <;> cases write <;> cases insert <;>
      simp [hinline, hclock, hwrite, hboth, setBlob_eq_self_iff]

-- ======================================================= the exchange

/-- The HAVE that follows, if it comes and decodes. -/
def followUp (crypto : Crypto) (stream : List UInt8) :
    Option StorageHavePayload :=
  match recvEnvelope crypto stream with
  | .error _ => none
  | .ok env =>
      if env.messageType ≠ .storageHave then none
      else (StorageHavePayload.decode env.payload).toOption

/-- Its bytes, if it names the hash. -/
def haveBytes (crypto : Crypto) (stream : List UInt8) (hash : Bytes 32) :
    Option (List UInt8) :=
  (followUp crypto stream).bind fun payload =>
    if payload.hash ≠ hash then none else some payload.bytes

theorem serveHave_eq (crypto : Crypto) (io : OfferIo) (s : StorageServices)
    (peer : Address) (hash : Bytes 32) :
    (s.serveHave crypto io peer hash).2
      = match haveBytes crypto io.stream hash with
        | none => s
        | some bytes =>
            ⟨(s.store.putIo crypto io.put bytes).2,
              if (s.store.putIo crypto io.put bytes).1 = .ok hash then
                s.provenance.notePublisher hash peer
              else s.provenance⟩ := by
  unfold haveBytes followUp StorageServices.serveHave
  cases recvEnvelope crypto io.stream with
  | error e => rfl
  | ok env =>
      dsimp only
      by_cases htype : env.messageType ≠ .storageHave
      · rw [if_pos htype, if_pos htype]
        rfl
      · rw [if_neg htype, if_neg htype]
        cases StorageHavePayload.decode env.payload with
        | error e => rfl
        | ok payload =>
            simp only [Except.toOption, Option.bind_some]
            by_cases hhash : payload.hash ≠ hash
            · rw [if_pos hhash, if_pos hhash]
            · rw [if_neg hhash, if_neg hhash]
              dsimp only
              rcases s.store.putIo crypto io.put payload.bytes
                with ⟨result, store⟩
              cases result with
              | error e => simp
              | ok addr =>
                  by_cases haddr : addr = hash
                  · simp [haddr]
                  · simp [haddr]

/-- The other exits write nothing. -/
theorem serveHave_none {io : OfferIo} {s : StorageServices} {peer : Address}
    {hash : Bytes 32} (h : haveBytes crypto io.stream hash = none) :
    (s.serveHave crypto io peer hash).2 = s := by
  rw [serveHave_eq, h]

/-- A HAVE that names the hash is put. -/
theorem serveHave_some {io : OfferIo} {s : StorageServices} {peer : Address}
    {hash : Bytes 32} {bytes : List UInt8}
    (h : haveBytes crypto io.stream hash = some bytes) :
    (s.serveHave crypto io peer hash).2
      = ⟨(s.store.putIo crypto io.put bytes).2,
          if (s.store.putIo crypto io.put bytes).1 = .ok hash then
            s.provenance.notePublisher hash peer
          else s.provenance⟩ := by
  rw [serveHave_eq, h]

/-- It leaves things as they were, unless it stores the object, iff the bytes
are those of the hash and are stored, or `put` leaves nothing of them. -/
theorem serveHave_unchanged_iff {io : OfferIo} {s : StorageServices}
    {peer : Address} {hash : Bytes 32} {bytes : List UInt8}
    (h : haveBytes crypto io.stream hash = some bytes)
    (habsent : s.store.has hash = false) :
    (¬ (s.serveHave crypto io peer hash).2.store.has hash = true →
        (s.serveHave crypto io peer hash).2 = s)
      ↔ crypto.blake3 bytes = hash ∧ PutSucceeds io.put bytes
        ∨ PutLeaves crypto io.put s.store bytes := by
  have hok := @putIo_ok_iff crypto io.put s.store bytes hash
  rw [serveHave_some h, has_putIo, habsent]
  by_cases hstored : crypto.blake3 bytes = hash ∧ PutSucceeds io.put bytes
  · refine iff_of_true (fun hnot => ?_) (.inl hstored)
    exact absurd (.inr ⟨hstored.1.symm, hstored.2⟩) hnot
  · have hnot : ¬ (false = true
        ∨ hash = crypto.blake3 bytes ∧ PutSucceeds io.put bytes) := by
      rintro (hfalse | ⟨rfl, hputs⟩)
      · cases hfalse
      · exact hstored ⟨rfl, hputs⟩
    rw [if_neg (fun hputs => hstored (hok.mp hputs)), or_iff_right hstored,
      ← putIo_eq_self_iff]
    constructor
    · intro hsame
      exact congrArg StorageServices.store (hsame hnot)
    · intro hstore _
      rw [hstore]

/-- Where no call fails, it is the Storage loop of an endpoint on the objects
that are held. -/
theorem serveOffer_serveStorage {stream : List UInt8} {unsent : Bool}
    {s : StorageServices} {env : SignedEnvelope} {offer : StorageOfferPayload}
    (hdecode : StorageOfferPayload.decode env.payload = .ok offer)
    (hintact : Intact crypto s.store)
    (hideal : ∀ payload, followUp crypto stream = some payload →
      Set.InjOn crypto.blake3 (insert payload.bytes (heldObjects s.store)))
    (e : Endpoint) (hstore : e.store = contents s.store)
    (hprovenance : e.provenance = s.provenance)
    (env' : Envelope StoragePayload) (hfrom : env'.fromSide = env.fromSide)
    (hpayload : env'.payload = .storageOffer offer.reference.hash) :
    let after := (s.serveOffer crypto ⟨false, unsent, stream, .fine⟩ env).2.2
    let e' := e.serveStorage crypto (!unsent) (followUp crypto stream) env'
    e'.store = contents after.store ∧ e'.provenance = after.provenance := by
  have hhas : (e.store offer.reference.hash).isSome
      = s.store.has offer.reference.hash := by
    rw [hstore, Bool.eq_iff_iff, has_iff, Option.isSome_iff_ne_none]
    constructor
    · intro h
      obtain ⟨object, hobject⟩ := Option.ne_none_iff_exists'.mp h
      exact rows_of_contents hobject
    · intro h
      obtain ⟨object, hobject, -⟩ := hintact _ h
      rw [hobject]
      exact Option.some_ne_none _
  dsimp only
  unfold Endpoint.serveStorage StorageServices.serveOffer
  rw [hdecode, hpayload, hfrom]
  simp only [hhas, Bool.false_eq_true, if_false, Bool.not_not]
  cases unsent with
  | true => simp [Endpoint.reply, hstore, hprovenance]
  | false =>
      cases hthere : s.store.has offer.reference.hash with
      | true => simp [Endpoint.reply, hstore, hprovenance]
      | false =>
          simp only [Bool.not_false, Bool.false_or,
            Bool.false_eq_true, if_false]
          rw [serveHave_eq, haveBytes]
          cases hfollow : followUp crypto stream with
          | none =>
              simp [reply_store, reply_provenance, hstore, hprovenance]
          | some payload =>
              have hput := contents_put hintact (hideal payload hfollow)
              by_cases hhash : payload.hash ≠ offer.reference.hash
              · simp [hhash, reply_store, reply_provenance, hstore, hprovenance]
              · simp only [Option.bind_some, if_neg hhash, putIo_fine,
                  put_fst, Except.ok.injEq]
                by_cases haddr :
                    crypto.blake3 payload.bytes = offer.reference.hash
                · simp [haddr, reply_store, reply_provenance, hstore,
                    hprovenance, hput]
                · simp [haddr, reply_store, reply_provenance, hstore,
                    hprovenance, hput]

/-- An object of the offered hash is stored. -/
def OfferStored (env : SignedEnvelope) (s : StorageServices) : Prop :=
  ∃ offer, StorageOfferPayload.decode env.payload = .ok offer
    ∧ s.store.has offer.reference.hash = true

/-- Of a HAVE that follows a WANT and names the offered hash, the bytes hash
to it and are stored; or `put` leaves nothing of them. -/
def HaveFits (crypto : Crypto) (io : OfferIo) (s : StorageServices)
    (env : SignedEnvelope) : Prop :=
  ∀ offer bytes, StorageOfferPayload.decode env.payload = .ok offer →
    s.store.has offer.reference.hash = false → io.want = false →
    haveBytes crypto io.stream offer.reference.hash = some bytes →
      crypto.blake3 bytes = offer.reference.hash ∧ PutSucceeds io.put bytes
        ∨ PutLeaves crypto io.put s.store bytes

/-- Past the offer and the WANT it is the HAVE that writes. -/
theorem serveOffer_cases {io : OfferIo} {s : StorageServices}
    {env : SignedEnvelope} {offer : StorageOfferPayload}
    (hdecode : StorageOfferPayload.decode env.payload = .ok offer) :
    (s.serveOffer crypto io env).2.2 = s
        ∧ (io.want = true ∨ s.store.has offer.reference.hash = true)
      ∨ (s.serveOffer crypto io env).2.2
          = (s.serveHave crypto io env.fromSide offer.reference.hash).2
        ∧ io.want = false := by
  unfold StorageServices.serveOffer
  rw [hdecode]
  dsimp only
  by_cases hwant : io.want = true
  · rw [if_pos hwant]
    exact .inl ⟨rfl, .inl hwant⟩
  · rw [if_neg hwant]
    by_cases hhas : (if io.has = true then false
        else s.store.has offer.reference.hash) = true
    · rw [if_pos hhas]
      refine .inl ⟨rfl, .inr ?_⟩
      split at hhas
      · cases hhas
      · exact hhas
    · rw [if_neg hhas]
      exact .inr ⟨rfl, Bool.eq_false_iff.mpr hwant⟩

/-- An exchange that does not end with the offered object stored leaves the
object store and the publisher table as they were, iff the bytes of the HAVE
are the ones offered or nothing is left of them. -/
theorem failed_ingest_unchanged_iff (crypto : Crypto) (io : OfferIo)
    (s : StorageServices) (env : SignedEnvelope) :
    (¬ OfferStored env (s.serveOffer crypto io env).2.2 →
        (s.serveOffer crypto io env).2.2 = s)
      ↔ HaveFits crypto io s env := by
  cases hdecode : StorageOfferPayload.decode env.payload with
  | error e =>
      have hsame : (s.serveOffer crypto io env).2.2 = s := by
        unfold StorageServices.serveOffer
        rw [hdecode]
      refine iff_of_true (fun _ => hsame) fun offer bytes hoffer => ?_
      rw [hdecode] at hoffer
      cases hoffer
  | ok offer =>
      have hstored (t : StorageServices) :
          OfferStored env t ↔ t.store.has offer.reference.hash = true := by
        unfold OfferStored
        simp [hdecode]
      have hfits : HaveFits crypto io s env
          ↔ ∀ bytes, s.store.has offer.reference.hash = false →
            io.want = false →
            haveBytes crypto io.stream offer.reference.hash = some bytes →
              crypto.blake3 bytes = offer.reference.hash
                  ∧ PutSucceeds io.put bytes
                ∨ PutLeaves crypto io.put s.store bytes := by
        refine ⟨fun h bytes => h offer bytes hdecode, fun h _ bytes hoffer => ?_⟩
        rw [hdecode] at hoffer
        cases hoffer
        exact h bytes
      rw [hstored, hfits]
      rcases @serveOffer_cases crypto io s env offer hdecode
        with ⟨hsame, hearly⟩ | ⟨hserved, hwant⟩
      · refine iff_of_true (fun _ => hsame) fun bytes hhas hwant => ?_
        rcases hearly with hsent | hthere
        · rw [hwant] at hsent
          cases hsent
        · rw [hhas] at hthere
          cases hthere
      · rw [hserved]
        cases hhave : haveBytes crypto io.stream offer.reference.hash with
        | none =>
            exact iff_of_true (fun _ => serveHave_none hhave)
              fun _ _ _ h => by cases h
        | some bytes =>
            cases hhas : s.store.has offer.reference.hash with
            | true =>
                have hthere : (s.serveHave crypto io env.fromSide
                    offer.reference.hash).2.store.has offer.reference.hash
                      = true := by
                  rw [serveHave_some hhave, has_putIo]
                  exact .inl hhas
                refine iff_of_true (fun hnot => absurd hthere hnot) ?_
                intro _ hfalse
                cases hfalse
            | false =>
                rw [serveHave_unchanged_iff hhave hhas]
                refine ⟨fun h bytes' _ _ hbytes => ?_, fun h => h bytes rfl hwant rfl⟩
                obtain rfl := Option.some.inj hbytes
                exact h

/-- A side that offers the object of one byte. -/
def offerer : Signer Crypto.legible := Signer.legible (Bytes.fill 32 1)

def offeredHash : Bytes 32 := Crypto.legible.blake3 [1]

def otherHash : Bytes 32 := Crypto.legible.blake3 [2]

def offerEnvelope : SignedEnvelope :=
  SignedEnvelope.signWith .storageOffer offerer (some (Bytes.fill 32 9))
    (StorageOfferPayload.encode ⟨.new offeredHash 1 singleMime⟩) 1000000000
    (Bytes.fill 16 0)

/-- It follows up with another byte under the hash it offered. -/
def otherHave : List UInt8 :=
  let payload : StorageHavePayload := ⟨offeredHash, [2], true⟩
  let env := SignedEnvelope.signWith .storageHave offerer
    (some (Bytes.fill 32 9)) payload.encode 1000000000 (Bytes.fill 16 1)
  let wire := env.toWireBytes
  toBeBytes 4 (UInt64.ofNat wire.length) ++ wire

/-- The object is not the one offered, and it stays. -/
theorem other_bytes_ingested :
    let io : OfferIo := ⟨false, false, otherHave, .fine⟩
    let s : StorageServices := ⟨.init, .empty⟩
    ¬ OfferStored offerEnvelope
        (s.serveOffer Crypto.legible io offerEnvelope).2.2
      ∧ (s.serveOffer Crypto.legible io offerEnvelope).2.2 ≠ s := by
  intro io s
  have hdecode : (StorageOfferPayload.decode offerEnvelope.payload).map
      (fun offer => offer.reference.hash) = .ok offeredHash := by decide +kernel
  have hstored : (s.serveOffer Crypto.legible io offerEnvelope).2.2.store.has
      offeredHash = false := by decide +kernel
  have hother : (s.serveOffer Crypto.legible io offerEnvelope).2.2.store.has
      otherHash = true := by decide +kernel
  constructor
  · rintro ⟨offer, hoffer, hthere⟩
    rw [hoffer] at hdecode
    have hhash : offer.reference.hash = offeredHash := Except.ok.inj hdecode
    rw [hhash, hstored] at hthere
    cases hthere
  · intro hsame
    rw [hsame] at hother
    exact absurd hother (by decide)

end Sidevers.Proofs
