/-
Amendments on their way to the members.

`host_amend_verse` puts a contract in place and announces it without looking
at its signature; a member's `decode_verse_amend` looks at everything. So a
member takes over exactly the announced contracts that the verse's key
signed, and gets an error from any other (`amendment_accepted_iff`); the
verse's key is that of the verse the host was made for, in every run
(`amends_of_verse`).
-/
import Sidevers.Proofs.ContractForms
import Sidevers.Proofs.VerseFanout

namespace Sidevers.Proofs

open Sidevers.Core
open Sidevers.Core.Cbor
open Sidevers.Lib
open Sidevers.Net

variable {crypto : Crypto}
  {openPost : VerseContentKey → VersePostPayload → Option (List UInt8)}

-- ============================================================ the wire form

/-- The value a payload wraps is what follows its one key. -/
theorem wrapped_value {k msg : String} {entries : Nat → String}
    {x : List UInt8} (hlen : (encodeMap [⟨key k, x⟩]).length < 2 ^ 64) :
    (do
      expectEntries 1 entries
      expectKey k msg
      remaining : Read (List UInt8)).value (encodeMap [⟨key k, x⟩])
      = .ok x := by
  have hbytes : encodeMap [⟨key k, x⟩]
      = writeHead mtMap (UInt64.ofNat 1) ++ (key k ++ x) := by
    simp [encodeMap]
  have hopen : Reads (expectEntries 1 entries)
      (writeHead mtMap (UInt64.ofNat 1)) () :=
    (reads_readCount "map" (by decide) (by decide : 1 ≤ maxCborEntries)).andThen
      (.neg (fun h => h rfl) (.pure ()))
  rw [hbytes] at hlen ⊢
  have hfirst := @Reads.bind_run _ _ _ (fun _ => do
    expectKey k msg
    remaining) _ [] (key k ++ x) _ hopen hlen
  have hsecond := @Reads.bind_run _ _ _ (fun _ => remaining) _
    (writeHead mtMap (UInt64.ofNat 1)) x _ (reads_expectKey k msg) hlen
  rw [List.nil_append, List.nil_append, List.length_nil] at hfirst
  unfold Read.value Read.on
  rw [hfirst, hsecond, remaining_run]
  simp [Except.map]

/-- What is read of an announcement is read of the contract in it. -/
theorem verseAmend_decode {c : ContractObject}
    (hlen : (VerseAmendPayload.encode ⟨c⟩).length < 2 ^ 64) :
    c.toWireBytes.length < 2 ^ 64
      ∧ VerseAmendPayload.decode crypto (VerseAmendPayload.encode ⟨c⟩)
        = (ContractObject.fromWireBytes crypto c.toWireBytes).map
          VerseAmendPayload.mk := by
  have hrest : (readContractKey
      (fun n => s!"VerseAmend expected 1 key, got {n}")
      "VerseAmend expects 'contract'").value (VerseAmendPayload.encode ⟨c⟩)
      = .ok c.toWireBytes := wrapped_value hlen
  constructor
  · apply Nat.lt_of_le_of_lt _ hlen
    simp only [VerseAmendPayload.encode, encodeMap, List.flatMap_cons,
      List.flatMap_nil, List.length_append]
    omega
  · unfold VerseAmendPayload.decode
    rw [hrest]
    rfl

/-- A contract comes out of its announcement iff it is in the form the
readers take, with the signature of its verse. -/
theorem verseAmend_decode_iff {c : ContractObject}
    (hlen : (VerseAmendPayload.encode ⟨c⟩).length < 2 ^ 64) :
    VerseAmendPayload.decode crypto (VerseAmendPayload.encode ⟨c⟩) = .ok ⟨c⟩
      ↔ ContractFits c
        ∧ crypto.verify c.verse (crypto.blake3 c.encodeUnsigned) c.signature
          = .ok () := by
  obtain ⟨hwire, hdecode⟩ := @verseAmend_decode crypto c hlen
  rw [hdecode]
  constructor
  · intro h
    cases hc : ContractObject.fromWireBytes crypto c.toWireBytes with
    | error e =>
        rw [hc] at h
        cases h
    | ok c' =>
        rw [hc] at h
        cases h
        obtain ⟨hread, hsig, -⟩ := fromWireBytes_contract.mp hc
        exact ⟨returns_contract.of_value hread, hsig⟩
  · rintro ⟨hfits, hsig⟩
    rw [fromWireBytes_of_contract hfits hwire hsig]
    rfl

/-- Nothing else comes out of it. -/
theorem verseAmend_decode_same {c : ContractObject} {p : VerseAmendPayload}
    (hlen : (VerseAmendPayload.encode ⟨c⟩).length < 2 ^ 64)
    (h : VerseAmendPayload.decode crypto (VerseAmendPayload.encode ⟨c⟩)
      = .ok p) : p = ⟨c⟩ := by
  obtain ⟨hwire, hdecode⟩ := @verseAmend_decode crypto c hlen
  rw [hdecode] at h
  cases hc : ContractObject.fromWireBytes crypto c.toWireBytes with
  | error e =>
      rw [hc] at h
      cases h
  | ok c' =>
      rw [hc] at h
      cases h
      rw [fromWireBytes_same hwire hc]

-- ============================================================ in every run

/-- The contracts announced are of the verse. -/
structure AmendsOf (verse : Address) (w : FanoutWorld) : Prop where
  host : w.verse.host.verse = verse
  spawned : ∀ task session contract,
    .spawned task session (.amend contract) ∈ w.log → contract.verse = verse

theorem amendsOf_step {verse : Address} {w w' : FanoutWorld}
    {a : FanoutAction} (h : AmendsOf verse w)
    (hstep : fanoutStep crypto openPost w a = some w') :
    AmendsOf verse w' := by
  cases fanoutStep_cases hstep with
  | verse a v es hverse hlog hspawn =>
      refine ⟨(contract_step hverse).1.trans h.host,
        fun task session contract hmem => ?_⟩
      rcases mem_append_verse hmem with hmem | ⟨e, heq⟩
      · exact h.spawned task session contract hmem
      · cases heq
  | spawned a v push hverse hlog hspawn =>
      refine ⟨(contract_step hverse).1.trans h.host,
        fun task session contract hmem => ?_⟩
      rcases List.mem_append.mp hmem with hmem | hmem
      · exact h.spawned task session contract hmem
      · cases List.mem_singleton.mp hmem
        cases verseStep_cases hverse with
        | amend c hc =>
            cases hspawn
            exact hc.trans h.host
        | tick conn io peer pc t hs ht =>
            simp only [spawnedBy] at hspawn
            split at hspawn
            · obtain ⟨-, -, heq⟩ := Option.map_eq_some_iff.mp hspawn
              cases heq
            · cases hspawn
        | _ => cases hspawn
  | collected task io push ht =>
      refine ⟨h.host, fun t session contract hmem => ?_⟩
      rcases List.mem_append.mp hmem with hmem | hmem
      · exact h.spawned t session contract hmem
      · cases List.mem_singleton.mp hmem
  | sent task member written conn push hs =>
      refine ⟨h.host, fun t session contract hmem => ?_⟩
      rcases List.mem_append.mp hmem with hmem | hmem
      · exact h.spawned t session contract hmem
      · cases List.mem_singleton.mp hmem

/-- What goes out in an amendment is a contract of the verse. -/
theorem amends_of_verse {contract₀ : ContractObject} {w : FanoutWorld}
    (h : Reachable (fanoutStep crypto openPost) (.init (.new contract₀)) w)
    {task : Nat} {contract : ContractObject} {member : Address}
    {written : Bool}
    (hsent : .sent task (.amend contract) member written ∈ w.log) :
    contract.verse = contract₀.verse := by
  have hjust := (fanoutInv_of_reachable h).justified
  have hinv : AmendsOf contract₀.verse w :=
    h.induct ⟨rfl, nofun⟩ fun _ _ _ h hstep => amendsOf_step h hstep
  obtain ⟨connections, hcopied, -⟩ := collected_of_sent hjust hsent
  obtain ⟨session, hspawned⟩ := spawned_of_collected hjust hcopied
  exact hinv.spawned task session contract hspawned

/-- What a member makes of an amendment: the contract in it or an error. -/
theorem decodeVerseAmend_amendPush {contract : ContractObject}
    {member : Address} {timestamp : Nat} {nonce : Nonce}
    (hlen : (VerseAmendPayload.encode ⟨contract⟩).length < 2 ^ 64) :
    (decodeVerseAmend crypto (amendPush contract member timestamp nonce)
        contract.verse = .ok contract
      ↔ VerseAmendPayload.decode crypto (VerseAmendPayload.encode ⟨contract⟩)
        = .ok ⟨contract⟩)
    ∧ ∀ c, decodeVerseAmend crypto
        (amendPush contract member timestamp nonce) contract.verse = .ok c →
      c = contract := by
  simp only [decodeVerseAmend, amendPush, ne_eq, not_true_eq_false, if_false]
  cases hdecode : VerseAmendPayload.decode crypto
    (VerseAmendPayload.encode ⟨contract⟩) with
  | error e => simp
  | ok payload =>
      obtain rfl := verseAmend_decode_same hlen hdecode
      dsimp only
      rw [if_neg (not_not.mpr rfl)]
      refine ⟨by simp, fun c hc => ?_⟩
      cases hc
      rfl

/-- In every run: a contract that goes out to a member, however it came to be
the host's, is taken over by the member that knows the verse iff the
verse's key signed it and its lists fit the readers; else the member gets an
error, never another contract. -/
theorem amendment_accepted_iff (crypto : Crypto)
    (openPost : VerseContentKey → VersePostPayload → Option (List UInt8))
    (contract₀ contract : ContractObject) (w : FanoutWorld)
    (h : Reachable (fanoutStep crypto openPost) (.init (.new contract₀)) w)
    (task : Nat) (member : Address) (written : Bool)
    (hsent : .sent task (.amend contract) member written ∈ w.log)
    (timestamp : Nat) (nonce : Nonce)
    (hlen : (VerseAmendPayload.encode ⟨contract⟩).length < 2 ^ 64) :
    (decodeVerseAmend crypto (amendPush contract member timestamp nonce)
        contract₀.verse = .ok contract
      ↔ ContractFits contract
        ∧ crypto.verify contract₀.verse
          (crypto.blake3 contract.encodeUnsigned) contract.signature
          = .ok ())
    ∧ (¬ (ContractFits contract
        ∧ crypto.verify contract₀.verse
          (crypto.blake3 contract.encodeUnsigned) contract.signature
          = .ok ()) →
      ∃ e, decodeVerseAmend crypto
        (amendPush contract member timestamp nonce) contract₀.verse
        = .error e) := by
  have hverse := amends_of_verse h hsent
  obtain ⟨hdecode, hsame⟩ := @decodeVerseAmend_amendPush crypto contract
    member timestamp nonce hlen
  have hiff := hdecode.trans (verseAmend_decode_iff hlen)
  rw [← hverse]
  refine ⟨hiff, fun hnot => ?_⟩
  cases hresult : decodeVerseAmend crypto
    (amendPush contract member timestamp nonce) contract.verse with
  | error e => exact ⟨e, rfl⟩
  | ok c =>
      obtain rfl := hsame c hresult
      exact absurd (hiff.mp hresult) hnot

/-- A contract that the verse signed. -/
def signedAmend : ContractObject :=
  ContractObject.sign (Signer.legible (Bytes.fill _ 1)) 2 "t" "d" [] [] [] []
    [] [] 7

/-- A side with a session is added, and the contract is amended. -/
def amendMember : List FanoutAction :=
  [.verse (.openSession (Bytes.fill _ 2)), .verse (.tick 0 none),
    .verse (.addLocalMember (Bytes.fill _ 2) 1), .verse (.amend signedAmend),
    .collect 0 (some 1), .send 0 (Bytes.fill _ 2) true]

/-- The member takes it over. -/
theorem amendment_accepted_signed :
    (run (fanoutStep Crypto.legible openAny) quietVerse amendMember).isSome
      ∧ decodeVerseAmend Crypto.legible
          (amendPush signedAmend (Bytes.fill _ 2) 1 (Bytes.fill _ 0))
          (Bytes.fill _ 1) = .ok signedAmend := by
  refine ⟨rfl, (amendment_accepted_iff Crypto.legible openAny
    (titled "open" 1) signedAmend _ ⟨amendMember, rfl⟩ 0 (Bytes.fill _ 2) true
    (List.mem_append_right _ List.mem_cons_self) 1 (Bytes.fill _ 0)
    (by decide +kernel)).1.mpr ⟨?_, ?_⟩⟩
  · exact ⟨by decide, by decide, by decide, nofun, by decide, by decide,
      by decide⟩
  · exact (Signer.legible (Bytes.fill _ 1)).verifies _

end Sidevers.Proofs
