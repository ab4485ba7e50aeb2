/-
The one wire form of a contract.

A contract whose lists are within the reader's limit reads back from its wire
form, nested lists included, and whatever is accepted is the wire form of the
result. The signed form is read back the same way, so it determines every
field but the signature, and so does the hash if BLAKE3 has no collision.
-/
import Mathlib.Data.Set.Function
import Sidevers.Proofs.CborWrites
import Sidevers.Proofs.SignedForms
import Sidevers.Proofs.WireForms

namespace Sidevers.Proofs

open Sidevers.Core
open Sidevers.Core.Cbor
open Sidevers.Lib

-- ================================================================= fields

theorem text_not_null (t : String) :
    ∃ ib tl, text t = ib :: tl ∧ ib ≠ simpleNull := by
  obtain ⟨ib, tl, htext, hmajor⟩ := text_major t
  exact ⟨ib, tl, htext, not_null_of_major hmajor (by decide)⟩

theorem reads_optionalText (missing : String) (t : Option String) :
    Reads (readOrNull missing readText) (ProfilePayload.orNull text t) t :=
  reads_readOrNull text_not_null reads_readText t

theorem reads_fieldSpec (spec : FieldSpec) :
    Reads FieldSpec.decodeFrom spec.encode spec := by
  have hcount : 4 ≤ maxCborEntries := by decide
  refine .map hcount ?_
  refine .field (reads_readText spec.kind) ?_
  refine .field (reads_readText spec.label) ?_
  refine .field (reads_optionalText _ spec.validator) ?_
  exact .field (reads_optionalText _ spec.description) (.pure spec)

theorem reads_policyClause {clause : PolicyClause}
    (hparams : clause.params.entries.length ≤ maxCborEntries) :
    Reads PolicyClause.decodeFrom clause.encode clause := by
  have hcount : 2 ≤ maxCborEntries := by decide
  refine .map hcount ?_
  refine .field (reads_readText clause.kind) ?_
  exact .field (reads_readTextMap _ hparams) (.pure clause)

-- ============================================================== contracts

/-- No list of the contract is longer than a reader takes. -/
structure ContractFits (c : ContractObject) : Prop where
  «scoped» : c.scoped.length ≤ maxCborEntries
  «optional» : c.optional.length ≤ maxCborEntries
  policies : c.policies.length ≤ maxCborEntries
  params : ∀ clause ∈ c.policies,
    clause.params.entries.length ≤ maxCborEntries
  required : c.required.length ≤ maxCborEntries
  forbidden : c.forbidden.length ≤ maxCborEntries
  moderators : c.moderators.length ≤ maxCborEntries

/-- The twelve fields of a contract read back from its wire form. -/
theorem reads_contract {c : ContractObject} (h : ContractFits c) :
    Reads ContractObject.readFields c.toWireBytes c := by
  have hcount : 12 ≤ maxCborEntries := by decide
  refine .map hcount ?_
  refine .field (reads_readText c.title) ?_
  refine .field (reads_readExact _ c.verse) ?_
  refine .field (reads_readArray h.scoped fun k _ => reads_readText k) ?_
  refine .field (reads_readU64 c.version) ?_
  refine .field (reads_readArray h.optional fun s _ => reads_fieldSpec s) ?_
  refine .field (reads_readArray h.policies fun p hp =>
    reads_policyClause (h.params p hp)) ?_
  refine .field (reads_readArray h.required fun s _ => reads_fieldSpec s) ?_
  refine .field (reads_readArray h.forbidden fun k _ => reads_readText k) ?_
  refine .field (reads_readU64 c.issuedAt) ?_
  refine .field (reads_readExact _ c.signature) ?_
  refine .field (reads_readArray h.moderators fun m _ =>
    reads_readExact _ m) ?_
  exact .field (reads_readText c.description) (.pure c)

/-- The unsigned form, read as a contract with the signature given. -/
def readUnsignedContract (signature : Bytes signatureLen) :
    Read ContractObject := do
  expectEntries 11 fun n => s!"ContractObject expected 11 keys, got {n}"
  ContractObject.expectField "title"
  let title ← readText
  ContractObject.expectField "verse"
  let verse ← readExact "verse" publicKeyLen
  ContractObject.expectField "scoped"
  let «scoped» ← readArray readText
  ContractObject.expectField "version"
  let version ← readU64
  ContractObject.expectField "optional"
  let «optional» ← readArray FieldSpec.decodeFrom
  ContractObject.expectField "policies"
  let policies ← readArray PolicyClause.decodeFrom
  ContractObject.expectField "required"
  let required ← readArray FieldSpec.decodeFrom
  ContractObject.expectField "forbidden"
  let forbidden ← readArray readText
  ContractObject.expectField "issued_at"
  let issuedAt ← readU64
  ContractObject.expectField "moderators"
  let moderators ← readArray (readExact "moderator" publicKeyLen)
  ContractObject.expectField "description"
  let description ← readText
  return { verse, version, title, description, required, «optional»,
           forbidden, «scoped», policies, moderators, issuedAt, signature }

theorem reads_unsignedContract {c : ContractObject} (h : ContractFits c)
    (signature : Bytes signatureLen) :
    Reads (readUnsignedContract signature) c.encodeUnsigned
      { c with signature } := by
  have hcount : 11 ≤ maxCborEntries := by decide
  refine .map hcount ?_
  refine .field (reads_readText c.title) ?_
  refine .field (reads_readExact _ c.verse) ?_
  refine .field (reads_readArray h.scoped fun k _ => reads_readText k) ?_
  refine .field (reads_readU64 c.version) ?_
  refine .field (reads_readArray h.optional fun s _ => reads_fieldSpec s) ?_
  refine .field (reads_readArray h.policies fun p hp =>
    reads_policyClause (h.params p hp)) ?_
  refine .field (reads_readArray h.required fun s _ => reads_fieldSpec s) ?_
  refine .field (reads_readArray h.forbidden fun k _ => reads_readText k) ?_
  refine .field (reads_readU64 c.issuedAt) ?_
  refine .field (reads_readArray h.moderators fun m _ =>
    reads_readExact _ m) ?_
  exact .field (reads_readText c.description) (.pure _)

-- =============================================================== accepted

theorem returns_policyClause : Returns PolicyClause.decodeFrom fun clause =>
    clause.params.entries.length ≤ maxCborEntries := by
  refine (Returns.any _).bind fun _ _ => ?_
  refine .field (.any _) fun kind _ => ?_
  exact .field (returns_readTextMap _) fun params hparams => .pure hparams

theorem returns_contract :
    Returns ContractObject.readFields ContractFits := by
  have htexts : Returns (readArray readText) fun xs =>
      xs.length ≤ maxCborEntries ∧ ∀ a ∈ xs, True :=
    returns_readArray (.any _)
  have hspecs : Returns (readArray FieldSpec.decodeFrom) fun xs =>
      xs.length ≤ maxCborEntries ∧ ∀ a ∈ xs, True :=
    returns_readArray (.any _)
  refine (Returns.any _).bind fun _ _ => ?_
  refine .field (.any _) fun title _ => .field (.any _) fun verse _ => ?_
  refine .field htexts fun «scoped» hscoped => ?_
  refine .field (.any _) fun version _ => ?_
  refine .field hspecs fun «optional» hoptional => ?_
  refine .field (returns_readArray returns_policyClause)
    fun policies hpolicies => ?_
  refine .field hspecs fun required hrequired => ?_
  refine .field htexts fun forbidden hforbidden => ?_
  refine .field (.any _) fun issuedAt _ => .field (.any _) fun sig _ => ?_
  refine .field (returns_readArray (.any _)) fun moderators hmoderators => ?_
  refine .field (.any _) fun description _ => .pure ?_
  exact ⟨hscoped.1, hoptional.1, hpolicies.1, hpolicies.2, hrequired.1,
    hforbidden.1, hmoderators.1⟩

theorem fromWireBytes_of_contract {crypto : Crypto} {c : ContractObject}
    (hfits : ContractFits c) (hlen : c.toWireBytes.length < 2 ^ 64)
    (hsig : crypto.verify c.verse (crypto.blake3 c.encodeUnsigned) c.signature
      = .ok ()) :
    ContractObject.fromWireBytes crypto c.toWireBytes = .ok c :=
  fromWireBytes_contract.mpr ⟨(reads_contract hfits).value hlen, hsig, rfl⟩

-- ============================================== whether it fits or not

theorem tells_text : Tells (2 ^ 64) text Eq := Reads.tells reads_readText

theorem tells_bytes : Tells (2 ^ 64) bytes Eq := Reads.tells reads_readBytes

theorem tells_uint : Tells (2 ^ 64) uint Eq := Reads.tells reads_readU64

theorem tells_fieldSpec : Tells (2 ^ 64) FieldSpec.encode Eq :=
  Reads.tells reads_fieldSpec

theorem tells_policyClause : Tells (2 ^ 64) PolicyClause.encode Eq := by
  have hparams : Tells (2 ^ 64) encodeTextMap Eq := tells_sortedMap tells_text
  show Tells (2 ^ 64) (fun clause : PolicyClause => encodeMap
    [⟨key "kind", text clause.kind⟩,
     ⟨key "params", encodeTextMap clause.params⟩]) Eq
  refine Tells.mono (tells_map (n := 2) (fun _ => rfl)
    (tells_field tells_text (tells_field hparams (.const []))))
    fun clause clause' h => ?_
  obtain ⟨kind, params⟩ := clause
  obtain ⟨kind', params'⟩ := clause'
  obtain ⟨rfl, rfl, -⟩ := h
  rfl

/-- The wire form of a contract tells the contract, whatever its lists. -/
theorem tells_contract : Tells (2 ^ 64) ContractObject.toWireBytes Eq := by
  have htexts := tells_array text_ne_nil tells_text
  have hspecs := tells_array (fun s => encodeMap_ne_nil _) tells_fieldSpec
  have hpolicies :=
    tells_array (fun p => encodeMap_ne_nil _) tells_policyClause
  have hmoderators : Tells (2 ^ 64)
      (encodeArray fun m : Address => bytes m.val) Eq :=
    tells_array (fun m => bytes_ne_nil m.val)
      ((tells_bytes.part Subtype.val).mono fun _ _ => Subtype.ext)
  refine Tells.mono (tells_map (n := 12) (fun _ => rfl)
    (tells_field tells_text <| tells_field tells_bytes <|
      tells_field htexts <| tells_field tells_uint <|
      tells_field hspecs <| tells_field hpolicies <|
      tells_field hspecs <| tells_field htexts <|
      tells_field tells_uint <| tells_field tells_bytes <|
      tells_field hmoderators <| tells_field tells_text <| .const []))
    fun c c' h => ?_
  obtain ⟨htitle, hverse, hscoped, hversion, hoptional, hpols, hrequired,
    hforbidden, hissued, hsignature, hmods, hdescription, -⟩ := h
  cases c
  cases c'
  cases htitle
  cases Subtype.ext hverse
  cases hscoped
  cases hversion
  cases hoptional
  cases hpols
  cases hrequired
  cases hforbidden
  cases hissued
  cases Subtype.ext hsignature
  cases hmods
  cases hdescription
  rfl

/-- From the wire form of a contract nothing else is read. -/
theorem fromWireBytes_same {crypto : Crypto} {c c' : ContractObject}
    (hlen : c.toWireBytes.length < 2 ^ 64)
    (h : ContractObject.fromWireBytes crypto c.toWireBytes = .ok c') :
    c' = c := by
  obtain ⟨-, -, hform⟩ := fromWireBytes_contract.mp h
  exact (tells_contract.of_eq hlen hform.symm).symm

theorem length_encodeUnsigned_le (c : ContractObject) :
    c.encodeUnsigned.length ≤ c.toWireBytes.length := by
  have h11 : (writeHead mtMap (UInt64.ofNat 11)).length = 1 := by decide
  have h12 : (writeHead mtMap (UInt64.ofNat 12)).length = 1 := by decide
  unfold ContractObject.encodeUnsigned ContractObject.toWireBytes encodeMap
  simp only [List.length_cons, List.length_nil, List.length_append,
    List.flatMap_cons, List.flatMap_nil, Nat.zero_add, Nat.reduceAdd, h11, h12]
  omega

/-- What is signed determines every field but the signature. -/
theorem unsigned_determines {c c' : ContractObject} (h : ContractFits c)
    (h' : ContractFits c') (hlen : c.encodeUnsigned.length < 2 ^ 64)
    (heq : c.encodeUnsigned = c'.encodeUnsigned) :
    c' = { c with signature := c'.signature } := by
  have hread := reads_unsignedContract h c'.signature
  rw [heq] at hread hlen
  exact (reads_unsignedContract h' c'.signature).unique hread hlen

/-- What a verse signs is accepted and gives the contract back; what is
accepted is the wire form of the result, with a signature over every other
field; and contracts with one hash are one contract. -/
theorem contract_form (crypto : Crypto) :
    (∀ (verseKey : Signer crypto) version title description required «optional»
        forbidden «scoped» policies moderators issuedAt,
      let c := ContractObject.sign verseKey version title description required
        «optional» forbidden «scoped» policies moderators issuedAt
      ContractFits c → c.toWireBytes.length < 2 ^ 64 →
      ContractObject.fromWireBytes crypto c.toWireBytes = .ok c)
    ∧ (∀ b c, ContractObject.fromWireBytes crypto b = .ok c →
      b = c.toWireBytes
        ∧ crypto.verify c.verse (crypto.blake3 c.encodeUnsigned) c.signature
          = .ok ()
        ∧ (b.length < 2 ^ 64 → ∀ c', ContractFits c' →
          c.encodeUnsigned = c'.encodeUnsigned →
          c' = { c with signature := c'.signature }))
    ∧ ∀ c c', ContractFits c → ContractFits c' →
      c.toWireBytes.length < 2 ^ 64 →
      Set.InjOn crypto.blake3 {c.toWireBytes, c'.toWireBytes} →
      c.hash crypto = c'.hash crypto → c = c' := by
  refine ⟨?_, fun b c h => ?_, fun c c' hc hc' hlen hinj hhash => ?_⟩
  · intro verseKey version title description required «optional» forbidden
      «scoped» policies moderators issuedAt c hfits hlen
    exact fromWireBytes_of_contract hfits hlen (verseKey.verifies _)
  · obtain ⟨hread, hsig, hform⟩ := fromWireBytes_contract.mp h
    refine ⟨hform.symm, hsig, fun hlen c' hc' heq => ?_⟩
    refine unsigned_determines (returns_contract.of_value hread) hc' ?_ heq
    exact Nat.lt_of_le_of_lt (length_encodeUnsigned_le c) (hform ▸ hlen)
  · have heq := hinj (Set.mem_insert _ _)
      (Set.mem_insert_of_mem _ (Set.mem_singleton _)) hhash
    have hread := reads_contract hc'
    rw [← heq] at hread
    exact (reads_contract hc).unique hread hlen

/-- A contract with a required field and a policy. -/
theorem contract_form_signed :
    let c := ContractObject.sign (Signer.legible (Bytes.fill _ 1)) 1 "t" "d"
      [⟨"name", "Name", none, some "v"⟩] [] ["phone"] []
      [⟨"age", BTreeMap.empty.insert "min" "18"⟩] [Bytes.fill _ 2] 7
    ContractObject.fromWireBytes Crypto.legible c.toWireBytes = .ok c := by
  refine (contract_form Crypto.legible).1 _ _ _ _ _ _ _ _ _ _ _ ⟨?_, ?_, ?_,
    ?_, ?_, ?_, ?_⟩ (by decide +kernel)
  · decide
  · decide
  · decide
  · intro clause hclause
    obtain rfl := List.mem_singleton.mp hclause
    decide
  · decide
  · decide
  · decide

end Sidevers.Proofs
