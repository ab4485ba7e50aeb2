/-
The one wire form of what co-holders exchange: the plaintext of a bundle and
the deltas.

Both directions are proved reader by reader (`reads_…`, `spells_…`). The kind
of an op decides which fields follow, and every kind is one map whose first
entry names it. A relationship record is written and read in two places, in
the same form.
-/
import Sidevers.Core.DeviceWire
import Sidevers.Proofs.ContractForms

namespace Sidevers.Proofs

open Sidevers.Core
open Sidevers.Core.Cbor
open Sidevers.Lib
open Sidevers.Lib.Cbor

-- ========================================================== relationships

theorem bytes_not_null (b : List UInt8) :
    ∃ ib tl, bytes b = ib :: tl ∧ ib ≠ simpleNull := by
  obtain ⟨ib, tl, hbytes, hmajor⟩ := bytes_major b
  exact ⟨ib, tl, hbytes, not_null_of_major hmajor (by decide)⟩

theorem reads_optionalExact {n : Nat} (missing field : String)
    (b : Option (Bytes n)) :
    Reads (readOrNull missing (readExact field n))
      (ProfilePayload.orNull (fun b => bytes b.val) b) b := by
  have hmajor : ∀ b : Bytes n, ∃ ib tl,
      bytes b.val = ib :: tl ∧ ib ≠ simpleNull := fun b => bytes_not_null b.val
  exact reads_readOrNull hmajor (fun b => reads_readExact field b) b

theorem reads_relationship {rec : RelationshipRecord}
    (hcaps : rec.capabilities.length ≤ maxCborEntries) :
    Reads RelationshipRecord.decodeFrom rec.encode rec := by
  have hcount : 7 ≤ maxCborEntries := by decide
  refine .map hcount ?_
  refine .field (reads_optionalText _ rec.notes) ?_
  refine .field (reads_readBool rec.pinned) ?_
  refine .field (reads_readExact _ rec.address) ?_
  refine .field (reads_readU64 rec.addedAt) ?_
  refine .field (reads_optionalText _ rec.nickname) ?_
  refine .field (reads_readArray hcaps fun t _ => reads_readText t) ?_
  exact .field (reads_optionalExact _ _ rec.introducedBy) (.pure rec)

theorem spells_relationship :
    Spells RelationshipRecord.decodeFrom RelationshipRecord.encode :=
  spells_map (.field (spells_readOrNull spells_readText) fun _ =>
    .field spells_readBool fun _ => .field (spells_readExact _ _) fun _ =>
    .field spells_readU64 fun _ =>
    .field (spells_readOrNull spells_readText) fun _ =>
    .field (spells_readArray spells_readText) fun _ =>
    .field (spells_readOrNull (spells_readExact _ _)) fun _ =>
    .pure ⟨rfl, rfl⟩)

/-- The form inside a bundle is the form inside an op. -/
theorem encodeRelationshipArray_eq :
    encodeRelationshipArray = encodeArray RelationshipRecord.encode := rfl

theorem decodeRelationshipArray_eq :
    decodeRelationshipArray = readArray RelationshipRecord.decodeFrom := rfl

theorem reads_relationshipArray {items : List RelationshipRecord}
    (hcount : items.length ≤ maxCborEntries)
    (hcaps : ∀ rec ∈ items, rec.capabilities.length ≤ maxCborEntries) :
    Reads decodeRelationshipArray (encodeRelationshipArray items) items := by
  rw [decodeRelationshipArray_eq, encodeRelationshipArray_eq]
  exact reads_readArray hcount fun rec hrec => reads_relationship (hcaps rec hrec)

theorem spells_relationshipArray :
    Spells decodeRelationshipArray encodeRelationshipArray := by
  rw [decodeRelationshipArray_eq, encodeRelationshipArray_eq]
  exact spells_readArray spells_relationship

-- ==================================================================== ops

/-- The capability list an op carries is within the reader's limit. -/
def OpFits : DeltaOp → Prop
  | .relationshipUpserted record =>
      record.capabilities.length ≤ maxCborEntries
  | _ => True

/-- An op is read as its kind and the fields of that kind. -/
theorem reads_kind {op : DeltaOp} {kind : String} {es : List MapEntry}
    (hform : op.encode = encodeMap (⟨key "kind", text kind⟩ :: es))
    (hcount : es.length + 1 ≤ maxCborEntries)
    (h : Reads (DeltaOp.decodeFields (es.length + 1) kind)
      (es.flatMap fun e => e.key ++ e.value) op) :
    Reads DeltaOp.decodeFrom op.encode op := by
  rw [hform]
  refine (reads_readCount "map" (by decide) hcount).bind ?_
  refine .neg (Nat.succ_ne_zero _) ?_
  exact .field (reads_readText kind) h

theorem reads_deltaOp {op : DeltaOp} (hfits : OpFits op) :
    Reads DeltaOp.decodeFrom op.encode op := by
  have htwo : 2 ≤ maxCborEntries := by decide
  have hthree : 3 ≤ maxCborEntries := by decide
  cases op with
  | profileUpdated profileWire =>
      refine reads_kind rfl htwo (.pos rfl ?_)
      refine .neg (fun h => h rfl) ?_
      exact .field (reads_readBytes profileWire) (.pure _)
  | profileCleared =>
      refine reads_kind rfl (by decide) (.neg (by decide) (.pos rfl ?_))
      exact .neg (fun h => h rfl) (.pure _)
  | relationshipUpserted record =>
      refine reads_kind rfl htwo (.neg (by decide) (.neg (by decide)
        (.pos rfl ?_)))
      refine .neg (fun h => h rfl) ?_
      exact .field (reads_relationship hfits) (.pure _)
  | relationshipRemoved address =>
      refine reads_kind rfl htwo (.neg (by decide) (.neg (by decide)
        (.neg (by decide) (.pos rfl ?_))))
      refine .neg (fun h => h rfl) ?_
      exact .field (reads_readExact _ address) (.pure _)
  | retiredObserved address =>
      refine reads_kind rfl htwo (.neg (by decide) (.neg (by decide)
        (.neg (by decide) (.neg (by decide) (.pos rfl ?_)))))
      refine .neg (fun h => h rfl) ?_
      exact .field (reads_readExact _ address) (.pure _)
  | lifecycleChanged state =>
      refine reads_kind rfl htwo (.neg (by decide) (.neg (by decide)
        (.neg (by decide) (.neg (by decide) (.neg (by decide)
          (.pos rfl ?_))))))
      refine .neg (fun h => h rfl) ?_
      exact .field (reads_readText state) (.pure _)
  | coHolderAdded devicePubkey dialAddr =>
      refine reads_kind rfl hthree (.neg (by decide) (.neg (by decide)
        (.neg (by decide) (.neg (by decide) (.neg (by decide)
          (.neg (by decide) (.pos rfl ?_)))))))
      refine .neg (fun h => h rfl) ?_
      refine .field (reads_readText dialAddr) ?_
      exact .field (reads_readExact _ devicePubkey) (.pure _)
  | coHolderRemoved devicePubkey =>
      refine reads_kind rfl htwo (.neg (by decide) (.neg (by decide)
        (.neg (by decide) (.neg (by decide) (.neg (by decide)
          (.neg (by decide) (.neg (by decide) (.pos rfl ?_))))))))
      refine .neg (fun h => h rfl) ?_
      exact .field (reads_readExact _ devicePubkey) (.pure _)

/-- The entries that, after the kind, make the encoding of an op. -/
def OpEntries (n : Nat) (kind : String) (op : DeltaOp)
    (es : List MapEntry) : Prop :=
  es.length + 1 = n
    ∧ op.encode = encodeMap (⟨key "kind", text kind⟩ :: es)

/-- One kind, whose number of entries is checked, or another. -/
theorem fields_kind {n m : Nat} {kind k : String} {e : Core.Error}
    {α : Type} {g : α → Read DeltaOp} {f other : Read DeltaOp}
    (hf : Fields f (OpEntries m k))
    (hother : Fields other (OpEntries n kind)) :
    Fields (if kind = k then
      if n ≠ m then MonadExcept.throw e >>= g else f else other)
      (OpEntries n kind) := by
  refine .ite (fun hkind => .ite (fun _ => .throw_bind) fun hn => ?_)
    fun _ => hother
  rw [hkind, not_not.mp hn]
  exact hf

theorem fields_deltaOp (n : Nat) (kind : String) :
    Fields (DeltaOp.decodeFields n kind) (OpEntries n kind) := by
  refine fields_kind (.field spells_readBytes fun _ => .pure ⟨rfl, rfl⟩) ?_
  refine fields_kind (.pure ⟨rfl, rfl⟩) ?_
  refine fields_kind (.field spells_relationship fun _ => .pure ⟨rfl, rfl⟩) ?_
  refine fields_kind (.field (spells_readExact _ _) fun _ =>
    .pure ⟨rfl, rfl⟩) ?_
  refine fields_kind (.field (spells_readExact _ _) fun _ =>
    .pure ⟨rfl, rfl⟩) ?_
  refine fields_kind (.field spells_readText fun _ => .pure ⟨rfl, rfl⟩) ?_
  refine fields_kind (.field spells_readText fun _ =>
    .field (spells_readExact _ _) fun _ => .pure ⟨rfl, rfl⟩) ?_
  refine fields_kind (.field (spells_readExact _ _) fun _ =>
    .pure ⟨rfl, rfl⟩) ?_
  exact Consumes.throw

theorem spells_deltaOp : Spells DeltaOp.decodeFrom DeltaOp.encode := by
  refine (consumes_readCount 5 "map").bind fun n hd ⟨hhd, hhead⟩ => ?_
  refine .ite (fun _ => .throw_bind) fun _ => ?_
  have hfields : Fields (do
      expectKey "kind" "DeltaOp: first key must be 'kind'"
      let kind ← readText
      DeltaOp.decodeFields n kind) fun op es =>
        es.length = n ∧ op.encode = encodeMap es :=
    .field spells_readText fun kind => fields_deltaOp n kind
  refine hfields.mono fun op bs h => ?_
  obtain ⟨es, hbs, hitems, rfl, henc⟩ := h
  refine ⟨?_, .around hhead rfl hitems⟩
  rw [henc, hhd, hbs]
  rfl

-- ================================================================ bundles

/-- No list of the bundle is longer than a reader takes. -/
structure BundleFits (x : SeededStateBundle) : Prop where
  coHolders : x.coHolders.length ≤ maxCborEntries
  relationships : x.relationships.length ≤ maxCborEntries
  capabilities : ∀ rec ∈ x.relationships,
    rec.capabilities.length ≤ maxCborEntries
  retiredSides : x.retiredSides.length ≤ maxCborEntries

theorem reads_bundle {x : SeededStateBundle} (h : BundleFits x) :
    Reads SeededStateBundle.readFields x.encode x := by
  have hcount : 7 ≤ maxCborEntries := by decide
  refine .map hcount ?_
  refine .field (reads_readOrNull bytes_not_null reads_readBytes
    x.profileWire) ?_
  refine .field (reads_readText x.lifecycle) ?_
  refine .field (reads_readExact _ x.sideSeed) ?_
  refine .field (reads_readU64 x.bundledAt) ?_
  refine .field (reads_readArray h.coHolders fun b _ =>
    reads_readExact _ b) ?_
  refine .field (reads_relationshipArray h.relationships h.capabilities) ?_
  exact .field (reads_readArray h.retiredSides fun b _ =>
    reads_readExact _ b) (.pure x)

theorem spells_bundle :
    Spells SeededStateBundle.readFields SeededStateBundle.encode :=
  spells_map (.field (spells_readOrNull spells_readBytes) fun _ =>
    .field spells_readText fun _ => .field (spells_readExact _ _) fun _ =>
    .field spells_readU64 fun _ =>
    .field (spells_readArray (spells_readExact _ _)) fun _ =>
    .field spells_relationshipArray fun _ =>
    .field (spells_readArray (spells_readExact _ _)) fun _ =>
    .pure ⟨rfl, rfl⟩)

-- ================================================================= deltas

/-- Neither the ops nor what they carry are longer than a reader takes. -/
structure DeltaFits (ops : List DeltaOp) : Prop where
  count : ops.length ≤ maxCborEntries
  ops : ∀ op ∈ ops, OpFits op

theorem reads_ops {ops : List DeltaOp} (h : DeltaFits ops) :
    Reads (readArray DeltaOp.decodeFrom) (encodeArray DeltaOp.encode ops)
      ops :=
  reads_readArray h.count fun op hop => reads_deltaOp (h.ops op hop)

theorem reads_stateDelta {p : SignedStateDelta} (h : DeltaFits p.ops) :
    Reads SignedStateDelta.readFields p.toWireBytes p := by
  have hcount : 4 ≤ maxCborEntries := by decide
  refine .map hcount ?_
  refine .field (reads_ops h) ?_
  refine .field (reads_readExact _ p.side) ?_
  refine .field (reads_readExact _ p.signature) ?_
  exact .field (reads_readU64 p.appliedAt) (.pure p)

theorem fromWireBytes_stateDelta {crypto : Crypto} {b : List UInt8}
    {p : SignedStateDelta} :
    SignedStateDelta.fromWireBytes crypto b = .ok p
      ↔ SignedStateDelta.readAll.value b = .ok p
        ∧ crypto.verify p.side (crypto.blake3
          (SignedStateDelta.encodeUnsigned p.toStateDeltaPayload)) p.signature
          = .ok ()
        ∧ p.toWireBytes = b :=
  read_verified_canonical

/-- Ops, bundles and signed deltas within the reader's limits read back from
their encodings, and whatever is accepted is the encoding of the result. A
relationship record has one form in a bundle and in an op. -/
theorem device_forms (crypto : Crypto) :
    (∀ ops, DeltaFits ops →
      (encodeArray DeltaOp.encode ops).length < 2 ^ 64 →
      (readArray DeltaOp.decodeFrom).value (encodeArray DeltaOp.encode ops)
        = .ok ops)
    ∧ (∀ b ops s, (readArray DeltaOp.decodeFrom).on b = .ok (ops, s) →
      b.take s.pos = encodeArray DeltaOp.encode ops)
    ∧ (∀ x, BundleFits x → x.encode.length < 2 ^ 64 →
      SeededStateBundle.decode x.encode = .ok x)
    ∧ (∀ b x, SeededStateBundle.decode b = .ok x → b = x.encode)
    ∧ (∀ (sideKey : Signer crypto) ops appliedAt,
      let p := SignedStateDelta.sign sideKey ops appliedAt
      DeltaFits ops → p.toWireBytes.length < 2 ^ 64 →
      SignedStateDelta.fromWireBytes crypto p.toWireBytes = .ok p)
    ∧ (∀ b p, SignedStateDelta.fromWireBytes crypto b = .ok p →
      b = p.toWireBytes)
    ∧ (∀ rec, rec.capabilities.length ≤ maxCborEntries →
      (DeltaOp.relationshipUpserted rec).encode.length < 2 ^ 64 →
      DeltaOp.decodeFrom.value (DeltaOp.relationshipUpserted rec).encode
          = .ok (.relationshipUpserted rec)
        ∧ decodeRelationshipArray.value (encodeRelationshipArray [rec])
          = .ok [rec]
        ∧ encodeRelationshipArray [rec] = arrayHeader 1 ++ rec.encode) := by
  refine ⟨fun ops hfits hlen => (reads_ops hfits).value hlen,
    fun b ops s h => ?_, fun x hfits hlen => ?_, fun b x h => ?_, ?_,
    fun b p h => (fromWireBytes_stateDelta.mp h).2.2.symm, fun rec hcaps hlen => ?_⟩
  · obtain ⟨rfl, ⟨rest, rfl⟩, -⟩ := (spells_readArray spells_deltaOp).of_on h
    exact List.take_left
  · exact (reads_bundle hfits).value_atEnd hlen _
  · exact spells_bundle.of_atEnd h
  · intro sideKey ops appliedAt p hfits hlen
    exact fromWireBytes_stateDelta.mpr
      ⟨(reads_stateDelta hfits).value_atEnd hlen _, sideKey.verifies _, rfl⟩
  · have harray : encodeRelationshipArray [rec]
        = arrayHeader 1 ++ rec.encode := by
      rw [encodeRelationshipArray_eq]
      unfold encodeArray
      rw [List.flatMap_cons, List.flatMap_nil, List.append_nil]
      rfl
    have hop : OpFits (.relationshipUpserted rec) := hcaps
    refine ⟨(reads_deltaOp hop).value hlen, ?_, harray⟩
    have hone : [rec].length ≤ maxCborEntries :=
      show 1 ≤ maxCborEntries by decide
    refine (reads_relationshipArray hone ?_).value ?_
    · intro r hr
      obtain rfl := List.mem_singleton.mp hr
      exact hcaps
    · have hkey : (key "record").length = 7 := by decide
      have hhead : (arrayHeader 1).length = 1 := by decide
      unfold DeltaOp.encode encodeMap at hlen
      rw [harray]
      simp only [List.flatMap_cons, List.length_append, hkey, hhead] at hlen ⊢
      omega

/-- An upserted relationship and a new co-holder, signed by the side. -/
theorem device_forms_signed :
    let p := SignedStateDelta.sign (Signer.legible (Bytes.fill _ 1))
      [.relationshipUpserted ⟨Bytes.fill _ 2, some "Bob", none, ["indexable"],
        none, true, 9⟩, .coHolderAdded (Bytes.fill _ 3) "10.0.0.1:7000"] 12
    SignedStateDelta.fromWireBytes Crypto.legible p.toWireBytes = .ok p := by
  refine (device_forms Crypto.legible).2.2.2.2.1 _ _ _ ⟨by decide, ?_⟩
    (by decide +kernel)
  intro op hop
  rcases List.mem_cons.mp hop with rfl | hop
  · show 1 ≤ maxCborEntries
    decide
  · obtain rfl := List.mem_singleton.mp hop
    trivial

end Sidevers.Proofs
