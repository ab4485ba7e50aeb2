/-
What a member has to show for its membership.

# The record

`requestJoin` checks the token of the answer against the verse and the
contract, not against the side. `applyVerseKeyRotation` takes over the bytes
of the token as they come and leaves the recorded contract hash as it is. So
the record says after any pushes what the last one it took over says
(`afterPushes_token`).

# Pushes of a host

A host that follows the protocol signs the token of a push under the
contract it has then (`pushed_step`). After such a push the record fits iff
that is the contract that was joined (`pushed_consistent_iff`).
-/
import Mathlib.Data.List.Induction
import Sidevers.Net.Membership
import Sidevers.Proofs.Addressee
import Sidevers.Proofs.CborWrites
import Sidevers.Proofs.VerseConsents

namespace Sidevers.Proofs

open Sidevers.Core
open Sidevers.Core.Cbor
open Sidevers.Lib
open Sidevers.Net

variable {crypto : Crypto}
  {openPost : VerseContentKey → VersePostPayload → Option (List UInt8)}

-- ============================================================ vocabulary

/-- A push as the member gets it. -/
abbrev RotationPush := Envelope (Except Core.Error JoinAcceptPayload)

/-- The bytes are a token of the verse, for the side, under the contract. -/
def IsToken (crypto : Crypto) (verse side : Address) (contractHash : Bytes 32)
    (token : List UInt8) : Prop :=
  ∃ t, SignedMembershipToken.fromWireBytes crypto token = .ok t
    ∧ t.verse = verse ∧ t.memberSide = side ∧ t.contractHash = contractHash

/-- The record of a side's membership fits its token. -/
def Consistent (crypto : Crypto) (side : Address) (m : VerseMembership) :
    Prop :=
  IsToken crypto m.verse side m.contractHash m.membershipToken

/-- The member tries to apply a push. -/
def takePush (side : Address) (m : VerseMembership) (push : RotationPush) :
    VerseMembership :=
  match applyVerseKeyRotation side m push with
  | .ok m' => m'
  | .error _ => m

/-- The membership after these pushes. -/
def afterPushes (side : Address) (m : VerseMembership)
    (pushes : List RotationPush) : VerseMembership :=
  pushes.foldl (takePush side) m

/-- What is taken over from a push, `none` if it is refused. -/
def taken (verse side : Address) (push : RotationPush) :
    Option JoinAcceptPayload :=
  if push.fromSide ≠ verse then none
  else
    match push.payload with
    | .error _ => none
    | .ok accept =>
        match openContentKey accept side verse with
        | .error _ => none
        | .ok _ => some accept

/-- The push that was taken over last. -/
def lastTaken (verse side : Address) (pushes : List RotationPush) :
    Option JoinAcceptPayload :=
  (pushes.filterMap (taken verse side)).getLast?

/-- The token of the last push that was taken over is for the side, under
the contract that was joined; without one, the token of the answer names the
side. -/
def TokenFits (crypto : Crypto) (side : Address) (contract : ContractObject)
    (resp : JoinResponse) (pushes : List RotationPush) : Prop :=
  match lastTaken contract.verse side pushes with
  | some accept =>
      IsToken crypto contract.verse side (contract.hash crypto)
        accept.membershipToken
  | none => ∀ accept t, resp = .accept (.ok accept) →
      SignedMembershipToken.fromWireBytes crypto accept.membershipToken
        = .ok t → t.memberSide = side

/-- A verse's tokens, signed. -/
def signedWire (sign : MembershipToken → Bytes signatureLen)
    (t : MembershipToken) : List UInt8 :=
  SignedMembershipToken.toWireBytes ⟨t, sign t⟩

/-- The signatures of the verse's key verify. -/
def SignsFor (crypto : Crypto) (sign : MembershipToken → Bytes signatureLen)
    (verse : Address) : Prop :=
  ∀ t : MembershipToken, t.verse = verse →
    crypto.verify verse
      (crypto.blake3 (SignedMembershipToken.encodeUnsigned t)) (sign t) = .ok ()

/-- A rotation made this push for the side. -/
def PushedTo (side : Address) (share : KeyShare) (es : List VerseEvent) :
    Prop :=
  ∃ shares conn, .pushed shares ∈ es ∧ shares side = some (conn, share)

-- ================================================================ tokens

theorem length_writeHead_le (major : UInt8) (v : UInt64) :
    (writeHead major v).length ≤ 9 := by
  unfold writeHead
  (repeat' split) <;> simp [length_toBeBytes]

theorem length_bytes_le {n : Nat} (b : Bytes n) :
    (bytes b.val).length ≤ 9 + n := by
  unfold bytes
  rw [List.length_append, b.property]
  exact Nat.add_le_add_right (length_writeHead_le ..) n

/-- A token's bytes, read back. -/
theorem reads_membershipToken (t : SignedMembershipToken) :
    Reads SignedMembershipToken.readFields t.toWireBytes t := by
  have hcount : 5 ≤ maxCborEntries := by decide
  refine .map hcount ?_
  refine .field (reads_readExact _ t.verse) ?_
  refine .field (reads_readExact _ t.memberSide) ?_
  refine .field (reads_readU64 t.issuedAt) ?_
  refine .field (reads_readExact _ t.signature) ?_
  exact .field (reads_readExact _ t.contractHash)
    (.pure t)

theorem length_membershipToken (t : SignedMembershipToken) :
    t.toWireBytes.length < 2 ^ 64 := by
  have hverse := length_bytes_le t.verse
  have hside := length_bytes_le t.memberSide
  have hissued := length_writeHead_le mtUint t.issuedAt
  have hsig := length_bytes_le t.signature
  have hhash := length_bytes_le t.contractHash
  have hmap := length_writeHead_le mtMap 5
  have hkeys : (key "verse").length + (key "member").length
      + (key "issued_at").length + (key "signature").length
      + (key "contract_hash").length = 47 := by decide
  have hlens : publicKeyLen = 32 ∧ signatureLen = 64 := ⟨rfl, rfl⟩
  show (writeHead mtMap 5 ++ _).length < _
  simp only [List.flatMap_cons, List.flatMap_nil, List.length_append,
    List.length_nil, uint]
  omega

/-- What the verse signed is accepted for what it is. -/
theorem fromWireBytes_signedWire {sign : MembershipToken → Bytes signatureLen}
    {verse : Address} {t : MembershipToken} (hsign : SignsFor crypto sign verse)
    (hverse : t.verse = verse) :
    SignedMembershipToken.fromWireBytes crypto (signedWire sign t)
      = .ok ⟨t, sign t⟩ := by
  have hread : SignedMembershipToken.readFields.value (signedWire sign t)
      = .ok ⟨t, sign t⟩ :=
    (reads_membershipToken _).value (length_membershipToken _)
  have hverify := hsign t hverse
  subst hverse
  unfold SignedMembershipToken.fromWireBytes
  rw [hread]
  show (crypto.verify t.verse _ (sign t) >>= fun _ => .ok _) = _
  rw [hverify]
  rfl

theorem isToken_signedWire {sign : MembershipToken → Bytes signatureLen}
    {verse side : Address} {contractHash : Bytes 32} {t : MembershipToken}
    (hsign : SignsFor crypto sign verse) (hverse : t.verse = verse) :
    IsToken crypto verse side contractHash (signedWire sign t)
      ↔ t.memberSide = side ∧ t.contractHash = contractHash := by
  have hread := fromWireBytes_signedWire hsign hverse
  constructor
  · rintro ⟨t', ht', -, hside, hhash⟩
    rw [hread] at ht'
    cases ht'
    exact ⟨hside, hhash⟩
  · rintro ⟨hside, hhash⟩
    exact ⟨_, hread, hverse, hside, hhash⟩

-- ================================================================ record

/-- What `request_join` checked. -/
theorem requestJoin_ok {side : Address} {contract : ContractObject}
    {resp : JoinResponse} {m : VerseMembership}
    (h : requestJoin crypto side contract resp = .ok m) :
    ∃ accept t, resp = .accept (.ok accept)
      ∧ SignedMembershipToken.fromWireBytes crypto accept.membershipToken
        = .ok t
      ∧ t.verse = contract.verse ∧ t.contractHash = contract.hash crypto
      ∧ m.verse = contract.verse ∧ m.contractHash = contract.hash crypto
      ∧ m.membershipToken = accept.membershipToken := by
  unfold requestJoin at h
  split at h
  case h_2 accept =>
      split at h
      case h_1 => cases h
      case h_2 t ht =>
          split at h
          case isTrue => cases h
          case isFalse hverse =>
              split at h
              case isTrue => cases h
              case isFalse hhash =>
                  split at h
                  case h_1 => cases h
                  case h_2 key _ =>
                      cases h
                      exact ⟨accept, t, rfl, ht, not_not.mp hverse,
                        not_not.mp hhash, rfl, rfl, rfl⟩
  all_goals cases h

/-- A push is refused, or its key and its token are taken over. -/
theorem takePush_eq (side : Address) (m : VerseMembership)
    (push : RotationPush) :
    (taken m.verse side push = none ∧ takePush side m push = m)
      ∨ ∃ accept key, taken m.verse side push = some accept
        ∧ takePush side m push = { m with
          contentKey := key, membershipToken := accept.membershipToken } := by
  unfold takePush applyVerseKeyRotation taken
  by_cases hfrom : push.fromSide = m.verse
  · rw [if_neg (not_not.mpr hfrom), if_neg (not_not.mpr hfrom)]
    cases push.payload with
    | error e => exact .inl ⟨rfl, rfl⟩
    | ok accept =>
        cases hkey : openContentKey accept side m.verse with
        | error e => simp [hkey]
        | ok key => simp [hkey]
  · rw [if_pos hfrom, if_pos hfrom]
    exact .inl ⟨rfl, rfl⟩

theorem afterPushes_concat (side : Address) (m : VerseMembership)
    (pushes : List RotationPush) (push : RotationPush) :
    afterPushes side m (pushes ++ [push])
      = takePush side (afterPushes side m pushes) push := by
  unfold afterPushes
  rw [List.foldl_append, List.foldl_cons, List.foldl_nil]

theorem lastTaken_concat (verse side : Address) (pushes : List RotationPush)
    (push : RotationPush) :
    lastTaken verse side (pushes ++ [push])
      = (taken verse side push).or (lastTaken verse side pushes) := by
  unfold lastTaken
  rw [List.filterMap_append]
  cases htaken : taken verse side push with
  | none => simp [htaken]
  | some accept => simp [htaken]

/-- The record keeps its verse and its contract, its token is the last one
taken over. -/
theorem afterPushes_token (side : Address) (m : VerseMembership)
    (pushes : List RotationPush) :
    (afterPushes side m pushes).verse = m.verse
      ∧ (afterPushes side m pushes).contractHash = m.contractHash
      ∧ (afterPushes side m pushes).membershipToken
        = ((lastTaken m.verse side pushes).map (·.membershipToken)).getD
          m.membershipToken := by
  induction pushes using List.reverseRecOn with
  | nil => exact ⟨rfl, rfl, rfl⟩
  | append_singleton pushes push ih =>
      obtain ⟨hverse, hhash, htoken⟩ := ih
      have hcases := takePush_eq side (afterPushes side m pushes) push
      rw [hverse] at hcases
      rw [afterPushes_concat, lastTaken_concat]
      rcases hcases with ⟨hnone, hsame⟩ | ⟨accept, key, hsome, htake⟩
      · rw [hsame, hnone]
        exact ⟨hverse, hhash, htoken⟩
      · rw [htake, hsome]
        exact ⟨rfl, hhash, rfl⟩

/-- After any pushes the record fits iff the last token taken over does. -/
theorem consistent_iff_fits {side : Address} {contract : ContractObject}
    {resp : JoinResponse} {m : VerseMembership}
    (hjoin : requestJoin crypto side contract resp = .ok m)
    (pushes : List RotationPush) :
    Consistent crypto side (afterPushes side m pushes)
      ↔ TokenFits crypto side contract resp pushes := by
  obtain ⟨accept, t, rfl, hread, hverse, hhash, hmverse, hmhash, hmtoken⟩ :=
    requestJoin_ok hjoin
  obtain ⟨hpverse, hphash, hptoken⟩ := afterPushes_token side m pushes
  unfold Consistent TokenFits
  rw [hpverse, hphash, hptoken, hmverse, hmhash, hmtoken]
  cases lastTaken contract.verse side pushes with
  | some accept' => exact Iff.rfl
  | none =>
      constructor
      · rintro ⟨t', ht', -, hside, -⟩ accept' t'' heq hread'
        cases heq
        cases ht'.symm.trans hread'
        exact hside
      · intro h
        exact ⟨t, hread, hverse, h accept t rfl hread, hhash⟩

-- ======================================================= pushes of a host

theorem rotateTick_pushed {h : VerseHost} {io : Option UInt64} {pc : RotatePc}
    {shares : Table Address (ConnId × KeyShare)}
    (he : .pushed shares ∈ (rotateTick crypto h io pc).events) :
    ∃ now, shares = h.pushSnapshot crypto now := by
  cases pc with
  | rotate =>
      cases io with
      | none => cases he
      | some now => cases List.mem_singleton.mp he
  | snapshot =>
      cases io with
      | none => cases he
      | some now =>
          cases List.mem_singleton.mp he
          exact ⟨now, rfl⟩

theorem serveTick_pushed {h : VerseHost} {peer : Address} {conn : ConnId}
    {io : Option UInt64} {pc : ServePc} {t : Tick ServePc}
    {shares : Table Address (ConnId × KeyShare)}
    (ht : serveTick crypto openPost h peer conn io pc = some t)
    (he : .pushed shares ∈ t.events) :
    ∃ now, shares = h.pushSnapshot crypto now := by
  cases pc with
  | rotating pc =>
      cases ht
      exact rotateTick_pushed he
  | accept => cases ht
  | _ =>
      -- no other step pushes
      simp only [serveTick] at ht
      (repeat' split at ht) <;> cases ht <;>
        first
          | cases List.mem_singleton.mp he
          | cases he

/-- A push is made of what the host has when it is made. -/
theorem pushed_step {w w' : VerseWorld} {a : VerseAction}
    {es : List VerseEvent} {side : Address} {share : KeyShare}
    (hstep : verseStep crypto openPost w a = some w')
    (hlog : w'.log = w.log ++ es) (hpushed : PushedTo side share es) :
    ∃ now, share = w.host.sealKey (w.host.contract.hash crypto) side now := by
  obtain ⟨shares, conn, he, hshare⟩ := hpushed
  obtain ⟨now, rfl⟩ : ∃ now, shares = w.host.pushSnapshot crypto now := by
    have hquiet : w'.log = w.log → False := by
      intro hsame
      rw [hsame, List.self_eq_append_right] at hlog
      rw [hlog] at he
      cases he
    cases verseStep_cases hstep with
    | tick conn io peer pc t hs ht =>
        rw [applySession_log, List.append_cancel_left_eq] at hlog
        rw [← hlog] at he
        exact serveTick_pushed ht he
    | tickRotation call io pc hr =>
        have hes : (rotateTick crypto w.host io pc).events = es :=
          List.append_cancel_left hlog
        rw [← hes] at he
        exact rotateTick_pushed he
    | pushSent rotation member conn share hp =>
        rw [← List.append_cancel_left hlog] at he
        cases List.mem_singleton.mp he
    | addLocalMember =>
        rw [← List.append_cancel_left hlog] at he
        simp at he
    | _ => exact (hquiet rfl).elim
  obtain ⟨-, -, rfl⟩ := VerseHost.pushSnapshot_eq_some.mp hshare
  exact ⟨now, rfl⟩

/-- A push for its receiver is taken over. -/
theorem taken_push {wire : MembershipToken → List UInt8} {verse : Address}
    {nonce : Nonce} {share : KeyShare} :
    taken verse share.member (share.push wire verse nonce)
      = some ⟨wire share.token, nonce,
        .box s(verse, share.member) nonce (some share.key)⟩ := by
  simp [taken, KeyShare.push, openContentKey, SealedContentKey.open]

/-- After a push of its host the record fits iff the contract was, when the
push was made, the one that was joined. -/
theorem pushed_consistent_iff {sign : MembershipToken → Bytes signatureLen}
    {side : Address} {contract contract₀ : ContractObject}
    {resp : JoinResponse} {m : VerseMembership} {w w' : VerseWorld}
    {acts : List VerseAction} {a : VerseAction} {es : List VerseEvent}
    {share : KeyShare} (hjoin : requestJoin crypto side contract resp = .ok m)
    (hverse : contract₀.verse = contract.verse)
    (hsign : SignsFor crypto sign contract.verse)
    (hrun : run (verseStep crypto openPost) (.init (.new contract₀)) acts
      = some w)
    (hstep : verseStep crypto openPost w a = some w')
    (hlog : w'.log = w.log ++ es) (hpushed : PushedTo side share es)
    (pushes : List RotationPush) (nonce : Nonce) :
    Consistent crypto side (afterPushes side m
        (pushes ++ [share.push (signedWire sign) contract.verse nonce]))
      ↔ w.host.contract.hash crypto = contract.hash crypto := by
  have hplaced : Placed crypto contract.verse w := by
    refine Reachable.induct ?_ (fun _ _ _ => placed_step) ⟨acts, hrun⟩
    rw [← hverse]
    exact placed_init contract₀
  obtain ⟨now, rfl⟩ := pushed_step hstep hlog hpushed
  have htaken : lastTaken contract.verse side (pushes
      ++ [(w.host.sealKey (w.host.contract.hash crypto) side now).push
        (signedWire sign) contract.verse nonce]) = _ :=
    (lastTaken_concat ..).trans (congrArg (Option.or · _) taken_push)
  rw [consistent_iff_fits hjoin]
  unfold TokenFits
  rw [htaken]
  refine (isToken_signedWire hsign ?_).trans ?_
  · exact hplaced.host
  · exact and_iff_right rfl

/-- A member's record fits its token after any pushes iff the token of the
last one taken over does (of the answer, without one: iff it names the
side); and after a push of its host iff the host's contract was the one that
was joined when it made the push. -/
theorem membership_consistent_iff (crypto : Crypto) (side : Address)
    (contract : ContractObject) (resp : JoinResponse) (m : VerseMembership)
    (hjoin : requestJoin crypto side contract resp = .ok m) :
    (∀ pushes, Consistent crypto side (afterPushes side m pushes)
      ↔ TokenFits crypto side contract resp pushes)
    ∧ ∀ openPost sign contract₀ acts w a w' es share,
      contract₀.verse = contract.verse → SignsFor crypto sign contract.verse →
      run (verseStep crypto openPost) (.init (.new contract₀)) acts = some w →
      verseStep crypto openPost w a = some w' → w'.log = w.log ++ es →
      PushedTo side share es → ∀ pushes nonce,
      (Consistent crypto side (afterPushes side m
          (pushes ++ [share.push (signedWire sign) contract.verse nonce]))
        ↔ w.host.contract.hash crypto = contract.hash crypto) :=
  ⟨consistent_iff_fits hjoin,
    fun _ _ _ _ _ _ _ _ _ hverse hsign hrun hstep hlog hpushed pushes nonce =>
      pushed_consistent_iff hjoin hverse hsign hrun hstep hlog hpushed pushes
        nonce⟩

-- ============================================================== a run

/-- An answer of the host to a request under its contract is accepted. -/
theorem requestJoin_push {sign : MembershipToken → Bytes signatureLen}
    {contract : ContractObject} {share : KeyShare} {nonce : Nonce}
    (hsign : SignsFor crypto sign contract.verse)
    (hverse : share.token.verse = contract.verse)
    (hhash : share.token.contractHash = contract.hash crypto) :
    requestJoin crypto share.member contract
        (.accept (share.push (signedWire sign) contract.verse nonce).payload)
      = .ok ⟨contract.verse, contract.hash crypto,
        signedWire sign share.token, share.key⟩ := by
  have hread := fromWireBytes_signedWire hsign hverse
  simp [requestJoin, KeyShare.push, hread, hverse, hhash, openContentKey,
    SealedContentKey.open]

/-- Contracts are told apart by their titles, and every signature verifies. -/
def vouching : Crypto where
  blake3 := titleHash.blake3
  verify _ _ _ := .ok ()

/-- Every signature is the same. -/
def anySign (_ : MembershipToken) : Bytes signatureLen := Bytes.fill _ 0

/-- What the side is sent when it joins under the first contract. -/
def joinShare : KeyShare :=
  (VerseHost.new (titled "a" 1)).sealKey ((titled "a" 1).hash vouching)
    (Bytes.fill _ 2) 1

/-- The answer. -/
def joinAnswer : JoinResponse :=
  .accept (joinShare.push (signedWire anySign) (titled "a" 1).verse
    (Bytes.fill _ 0)).payload

theorem joinAnswer_ok :
    requestJoin vouching joinShare.member (titled "a" 1) joinAnswer
      = .ok ⟨(titled "a" 1).verse, (titled "a" 1).hash vouching,
        signedWire anySign joinShare.token, joinShare.key⟩ :=
  requestJoin_push (fun _ _ => rfl) rfl rfl

theorem pushedTo_singleton {side : Address}
    {shares : Table Address (ConnId × KeyShare)} {conn : ConnId}
    {share : KeyShare} (h : shares side = some (conn, share)) :
    PushedTo side share [.pushed shares] :=
  ⟨shares, conn, List.mem_cons_self, h⟩

/-- The key is rotated under the contract that was joined. -/
theorem membership_consistent_rotated :
    ∃ m w w' es share,
      requestJoin vouching joinShare.member (titled "a" 1) joinAnswer = .ok m
      ∧ run (verseStep vouching fun _ _ => none) titledVerse
        (joinTitled ++ rotateKey) = some w
      ∧ verseStep vouching (fun _ _ => none) w (.tickRotation 1 (some 2))
        = some w'
      ∧ w'.log = w.log ++ es ∧ PushedTo joinShare.member share es
      ∧ Consistent vouching joinShare.member (afterPushes joinShare.member m
        ([] ++ [share.push (signedWire anySign) (titled "a" 1).verse
          (Bytes.fill _ 0)])) := by
  have hconsistent := (membership_consistent_iff vouching joinShare.member
    (titled "a" 1) joinAnswer _ joinAnswer_ok).2 (fun _ _ => none) anySign
    (titled "a" 1) (joinTitled ++ rotateKey) _ (.tickRotation 1 (some 2)) _ _ _
    rfl (fun _ _ => rfl) rfl rfl rfl
    (@pushedTo_singleton joinShare.member _ 0 _ rfl) [] (Bytes.fill _ 0)
  exact ⟨_, _, _, _, _, joinAnswer_ok, rfl, rfl, rfl,
    @pushedTo_singleton joinShare.member _ 0 _ rfl, hconsistent.mpr rfl⟩

/-- The contract is amended in between: the record keeps the hash that was
joined, the token has the other one. -/
theorem membership_inconsistent_amended :
    ∃ m w w' es share,
      requestJoin vouching joinShare.member (titled "a" 1) joinAnswer = .ok m
      ∧ run (verseStep vouching fun _ _ => none) titledVerse
        (joinTitled ++ [.amend (titled "b" 2)] ++ rotateKey) = some w
      ∧ verseStep vouching (fun _ _ => none) w (.tickRotation 1 (some 2))
        = some w'
      ∧ w'.log = w.log ++ es ∧ PushedTo joinShare.member share es
      ∧ ¬ Consistent vouching joinShare.member (afterPushes joinShare.member m
        ([] ++ [share.push (signedWire anySign) (titled "a" 1).verse
          (Bytes.fill _ 0)])) := by
  have hne : (titled "b" 2).hash vouching ≠ (titled "a" 1).hash vouching := by
    decide
  have hconsistent := @pushed_consistent_iff vouching (fun _ _ => none) anySign
    joinShare.member (titled "a" 1) (titled "a" 1) joinAnswer _ _ _
    (joinTitled ++ [.amend (titled "b" 2)] ++ rotateKey)
    (.tickRotation 1 (some 2)) _ _ joinAnswer_ok rfl (fun _ _ => rfl) rfl rfl
    rfl (@pushedTo_singleton joinShare.member _ 0 _ rfl) [] (Bytes.fill _ 0)
  exact ⟨_, _, _, _, _, joinAnswer_ok, rfl, rfl, rfl,
    @pushedTo_singleton joinShare.member _ 0 _ rfl,
    fun h => hne (hconsistent.mp h)⟩

end Sidevers.Proofs
