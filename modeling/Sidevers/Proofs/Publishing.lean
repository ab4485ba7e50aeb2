/-
A hosted side publishes its own profile, as long as nobody with its key brings
it another's.

A profile that comes in a delta or a bundle has verified and reads back from
its bytes, and nobody asks whose it is (`applyProfile_cases`,
`installBundle_cases`); the row of the store holds one that was installed
(`PublishInv`). So every profile installed is the side's own, and what is
answered to a PROFILE_FETCH is accepted, iff every step brings one of the
side's that reads back (`publishes_own_profile_iff`).
-/
import Sidevers.Lib.Run
import Sidevers.Net.Publishing
import Sidevers.Proofs.EnvelopeForms
import Sidevers.Proofs.ProfileForms
import Sidevers.Proofs.Retirement
import Sidevers.Proofs.Serving
import Sidevers.Proofs.WireSizes

namespace Sidevers.Proofs

open Sidevers.Core
open Sidevers.Core.Cbor
open Sidevers.Lib
open Sidevers.Net

variable {crypto : Crypto}

-- ============================================================== framing

/-- What is sent in a frame is received. -/
theorem recvEnvelope_sendEnvelope {env : SignedEnvelope}
    {stream : List UInt8}
    (hread : SignedEnvelope.fromWireBytes crypto env.toWireBytes = .ok env)
    (hsend : sendEnvelope env = .ok stream) :
    recvEnvelope crypto stream = .ok env := by
  have hframe : maxEnvelopeLen = 65536 := rfl
  have hpos : 0 < env.toWireBytes.length := by
    by_contra hnot
    have hnil : env.toWireBytes = [] :=
      List.eq_nil_of_length_eq_zero (by omega)
    rw [hnil] at hread
    obtain ⟨e, hread, -⟩ := ok_of_bind hread
    cases hread
  unfold sendEnvelope at hsend
  dsimp only at hsend
  split at hsend
  case isTrue => cases hsend
  case isFalse hfits =>
    cases hsend
    have hnat : (UInt64.ofNat env.toWireBytes.length).toNat
        = env.toWireBytes.length := by
      apply UInt64.toNat_ofNat_of_lt'
      exact Nat.lt_of_le_of_lt (Nat.le_of_not_lt hfits) (by decide)
    have hprefix : (toBeBytes 4 (UInt64.ofNat env.toWireBytes.length)).length
        = 4 := length_toBeBytes ..
    have hlen : fromBeBytes (toBeBytes 4 (UInt64.ofNat env.toWireBytes.length))
        = UInt64.ofNat env.toWireBytes.length := by
      apply fromBeBytes_toBeBytes (by decide)
      omega
    have hne : UInt64.ofNat env.toWireBytes.length ≠ 0 := by
      intro hzero
      rw [hzero] at hnat
      exact absurd hnat.symm (Nat.ne_of_gt hpos)
    unfold recvEnvelope
    rw [List.take_append_of_le_length (Nat.le_of_eq hprefix.symm),
      List.drop_append_of_le_length (Nat.le_of_eq hprefix.symm),
      List.take_of_length_le (Nat.le_of_eq hprefix),
      List.drop_of_length_le (Nat.le_of_eq hprefix), hlen, List.nil_append]
    refine guard_ok.mpr ⟨?_, guard_ok.mpr ⟨?_, guard_ok.mpr ⟨?_, ?_⟩⟩⟩
    · rw [List.length_append, hprefix]
      omega
    · rw [hnat]
      exact not_or.mpr ⟨hne, hfits⟩
    · rw [hnat]
      exact Nat.lt_irrefl _
    · rw [hnat, List.take_length, hread]
      rfl

/-- A signed envelope reads back. -/
theorem fromWireBytes_signWith (side : Signer crypto) {env : SignedEnvelope}
    {messageType : MessageType} {toSide : Option Address}
    {payload : List UInt8} {timestamp : UInt64} {nonce : Nonce}
    (henv : env = .signWith messageType side toSide payload timestamp nonce)
    (hlen : env.toWireBytes.length < 2 ^ 64) :
    SignedEnvelope.fromWireBytes crypto env.toWireBytes = .ok env := by
  subst henv
  exact fromWireBytes_of_form hlen rfl (side.verifies _)

-- ============================================================ the form

/-- A profile up to its side. -/
def readUpToSide : Read Address := do
  let _ ← readMapHeader
  expectKey "bio" ""
  let _ ← readOrNull "" readText
  expectKey "name" ""
  let _ ← readOrNull "" readText
  expectKey "side" ""
  readExact "side" publicKeyLen

/-- The bytes up to the side. -/
def upToSide (p : ProfilePayload) : List UInt8 :=
  writeHead mtMap 9
    ++ [MapEntry.mk (key "bio") (ProfilePayload.orNull text p.bio),
      ⟨key "name", ProfilePayload.orNull text p.name⟩,
      ⟨key "side", bytes p.side.val⟩].flatMap fun e => e.key ++ e.value

theorem reads_upToSide (p : ProfilePayload) :
    Reads readUpToSide (upToSide p) p.side := by
  have hcount : Reads readMapHeader (writeHead mtMap 9) 9 :=
    reads_readCount "map" (by decide) (by decide)
  refine hcount.bind ?_
  refine .field (reads_optionalText _ p.bio) ?_
  refine .field (reads_optionalText _ p.name) ?_
  rw [List.flatMap_singleton]
  exact (reads_expectKey "side" "").bind (reads_readExact _ p.side)

theorem toWireBytes_upToSide (p : ProfilePayload) :
    ∃ rest, p.toWireBytes = upToSide p ++ rest := by
  refine ⟨[MapEntry.mk (key "links")
        (ProfilePayload.orNull ProfilePayload.encodeTextArray p.links),
      ⟨key "avatar", ProfilePayload.orNull (fun h => bytes h.val) p.avatar⟩,
      ⟨key "fields",
        ProfilePayload.orNull ProfilePayload.encodeFieldsSubmap p.fields⟩,
      ⟨key "signature", bytes p.signature.val⟩,
      ⟨key "updated_at", uint p.updatedAt⟩,
      ⟨key "capabilities",
        ProfilePayload.encodeTextArray p.capabilities.keys⟩].flatMap
    fun e => e.key ++ e.value, ?_⟩
  rw [upToSide, List.append_assoc, ← List.flatMap_append]
  rfl

/-- The side is read before anything that may not read back. -/
theorem side_of_fromWireBytes {p p' : ProfilePayload}
    (hlen : p.toWireBytes.length < 2 ^ 64)
    (h : ProfilePayload.fromWireBytes crypto p.toWireBytes = .ok p') :
    p'.side = p.side := by
  have hform := ProfilePayload.toWireBytes_of_fromWireBytes h
  obtain ⟨rest, hwire⟩ := toWireBytes_upToSide p
  obtain ⟨rest', hwire'⟩ := toWireBytes_upToSide p'
  have hsame : upToSide p' ++ rest' = upToSide p ++ rest := by
    rw [← hwire', ← hwire, hform]
  rw [hwire] at hlen
  have hrun := reads_upToSide p [] rest hlen
  have hrun' := reads_upToSide p' [] rest' (by rw [hsame]; exact hlen)
  rw [hsame, hrun] at hrun'
  exact (Prod.mk.inj (Except.ok.inj hrun')).1.symm

theorem signed_of_fromWireBytes {wire : List UInt8} {p : ProfilePayload}
    (h : ProfilePayload.fromWireBytes crypto wire = .ok p) :
    ProfileSigned crypto p := by
  obtain ⟨⟨payload, rest⟩, -, h⟩ := ok_of_bind h
  obtain ⟨hsig, -, rfl⟩ := verified_canonical.mp h
  exact hsig

-- ========================================================= what is kept

/-- The profile, in memory and in the store, and whose it is. -/
structure KeepsProfile (s s' : Side) : Prop where
  address : s'.address = s.address
  keypair : s'.keypair = s.keypair
  profile : s'.profile = s.profile
  row : s'.store.tables.profiles = s.store.tables.profiles

theorem KeepsProfile.refl (s : Side) : KeepsProfile s s := ⟨rfl, rfl, rfl, rfl⟩

theorem KeepsProfile.trans {s s' s'' : Side} (h : KeepsProfile s s')
    (h' : KeepsProfile s' s'') : KeepsProfile s s'' :=
  ⟨h'.address.trans h.address, h'.keypair.trans h.keypair,
    h'.profile.trans h.profile, h'.row.trans h.row⟩

/-- A call on another table, whatever it says of other fields. -/
theorem keeps_execute {s s' : Side} {update : Tables → Tables}
    (hstore : s'.store = (SideStore.execute update s.store).2)
    (hupdate : ∀ t, (update t).profiles = t.profiles)
    (haddress : s'.address = s.address) (hkeypair : s'.keypair = s.keypair)
    (hprofile : s'.profile = s.profile) :
    KeepsProfile s s' := by
  refine ⟨haddress, hkeypair, hprofile, ?_⟩
  rw [hstore, SideStore.execute_snd]
  split
  · rfl
  · exact hupdate _

theorem keeps_setLifecycle (s : Side) (state : SideLifecycle) :
    KeepsProfile s (s.setLifecycle state) :=
  keeps_execute rfl (fun _ => rfl) rfl rfl rfl

theorem keeps_markRetiredSeen (s : Side) (retired : Address) (now : UInt64) :
    KeepsProfile s (s.markRetiredSeen retired now) :=
  keeps_execute rfl (fun _ => rfl) rfl rfl rfl

theorem keeps_addRelationship (s : Side) (r : SideRelationship) :
    KeepsProfile s (s.addRelationship r) :=
  keeps_execute rfl (fun _ => rfl) rfl rfl rfl

theorem keeps_addCoHolder (s : Side) (dev : Address) (by_ : Option Address)
    (now : UInt64) : KeepsProfile s (s.addCoHolder dev by_ now) :=
  keeps_execute rfl (fun _ => rfl) rfl rfl rfl

theorem keeps_recordCoHolderAddr (s : Side) (dev : Address) (dial : String)
    (now : UInt64) : KeepsProfile s (s.recordCoHolderAddr dev dial now) :=
  keeps_execute rfl (fun _ => rfl) rfl rfl rfl

theorem keeps_applyDelta {s : Side} {op : DeltaOp} {appliedAt now : UInt64}
    (hupdated : ∀ wire, op ≠ .profileUpdated wire)
    (hcleared : op ≠ .profileCleared) :
    KeepsProfile s (s.applyDelta crypto op appliedAt now) := by
  cases op with
  | profileUpdated wire => exact absurd rfl (hupdated wire)
  | profileCleared => exact absurd rfl hcleared
  | relationshipUpserted rec =>
      simp only [Side.applyDelta, Side.applyUpsert]
      split
      · split
        · exact keeps_addRelationship ..
        · exact .refl s
      · exact keeps_addRelationship ..
  | relationshipRemoved addr =>
      exact keeps_execute rfl (fun _ => rfl) rfl rfl rfl
  | retiredObserved addr => exact keeps_markRetiredSeen ..
  | lifecycleChanged state =>
      simp only [Side.applyDelta]
      split
      · exact .refl s
      · exact keeps_setLifecycle ..
  | coHolderAdded dev dial =>
      simp only [Side.applyDelta]
      split
      · exact .refl s
      · split
        · exact .refl s
        · exact (keeps_addCoHolder ..).trans (keeps_recordCoHolderAddr ..)
  | coHolderRemoved dev =>
      have hremove : KeepsProfile s (s.removeCoHolder dev) :=
        keeps_execute rfl (fun _ => rfl) rfl rfl rfl
      have hrevoke : KeepsProfile (s.removeCoHolder dev)
          ((s.removeCoHolder dev).addRevokedDevice dev now) :=
        keeps_execute rfl (fun _ => rfl) rfl rfl rfl
      exact (hremove.trans hrevoke).trans
        (keeps_execute rfl (fun _ => rfl) rfl rfl rfl)

/-- A loop whose rounds keep it. -/
theorem keeps_forEach {α : Type} {f : Side → α → UInt64 → Side}
    (hf : ∀ s a now, KeepsProfile s (f s a now)) (items : List α) (s : Side)
    (clock : Nat → UInt64) : KeepsProfile s (s.forEach f items clock) := by
  induction items generalizing s clock with
  | nil => exact .refl s
  | cons item rest ih => exact (hf s item _).trans (ih _ _)

/-- A write that is followed by something that succeeded. -/
theorem execute_bind_ok {β : Type} {update : Tables → Tables}
    {rest : Unit → StoreM β} {store : SideStore} {b : β}
    (h : ((SideStore.execute update >>= rest) store).1 = .ok b) :
    ∃ faults, (rest () ⟨update store.tables, faults⟩).1 = .ok b := by
  change ((ExceptT.bindCont rest (SideStore.execute update store).1)
    (SideStore.execute update store).2).1 = .ok b at h
  obtain ⟨tables, faults⟩ := store
  unfold SideStore.execute at h
  split at h
  case h_1 => cases h
  case h_2 => exact ⟨faults.tail, h⟩

/-- A load has the profile of the row, or makes a side without one. -/
theorem loadOrCreate_profile {key : SideKey} {label : Option String}
    {now : UInt64} {store : SideStore} {s : Side}
    (hload : Side.loadOrCreate crypto key label now store = .ok s) :
    s.address = key.publicBytes ∧ s.keypair = key
      ∧ s.store.tables.profiles = store.tables.profiles
      ∧ (s.profile = none ∨
        SideStore.profileOf crypto key.publicBytes store.tables
          = .ok s.profile) := by
  cases hrow : store.tables.sides key.publicBytes with
  | none =>
      unfold Side.loadOrCreate Side.loadOrCreateM at hload
      obtain ⟨found, f0, hfound, hload⟩ := query_bind_ok hload
      rw [hrow] at hfound
      cases hfound
      obtain ⟨faults, hload⟩ := execute_bind_ok hload
      cases hload
      exact ⟨rfl, rfl, rfl, .inl rfl⟩
  | some row =>
      obtain ⟨haddress, hkeypair, -, htables, hprofile⟩ :=
        loadOrCreate_row hrow hload
      exact ⟨haddress, hkeypair, congrArg _ htables, .inr hprofile⟩

-- ==================================================== what is published

section publishing

variable {side : Signer crypto}

/-- An answer with the profile reads back, if it fits a frame. -/
def Deliverable (side : Signer crypto) (p : ProfilePayload) : Prop :=
  ∀ peer now nonce stream,
    sendEnvelope (.signWith .profileDeliver side (some peer) p.toWireBytes now
      nonce) = .ok stream →
        ∃ p', ProfilePayload.fromWireBytes crypto p.toWireBytes = .ok p'

/-- The profile is the side's, and signed by it, and reads back. -/
structure OwnProfile (side : Signer crypto) (p : ProfilePayload) : Prop where
  ofSide : p.side = side.publicBytes
  signed : ProfileSigned crypto p
  deliverable : Deliverable side p

/-- The profile installed is the side's own, and what is answered to a fetch
is accepted by `fetch_profile` and by the PROFILE_DELIVER handler. -/
structure PublishesOwn (side : Signer crypto) (s : Side) : Prop where
  own : ∀ p, s.profile = some p →
    p.side = s.address ∧ ProfileSigned crypto p
  accepted : ∀ (n : ServingNode crypto) env io answer stream, n.side = side →
    n.profile = s.profile → (n.profileFetch env io).answer = some answer →
    sendEnvelope answer = .ok stream →
      ∃ p, fetchProfile crypto s.address stream = .ok p
        ∧ profileDelivered crypto answer = some p

theorem ownProfile_of_fromWireBytes {wire : List UInt8} {p : ProfilePayload}
    (h : ProfilePayload.fromWireBytes crypto wire = .ok p)
    (hside : p.side = side.publicBytes) : OwnProfile side p where
  ofSide := hside
  signed := signed_of_fromWireBytes h
  deliverable _ _ _ _ _ :=
    ⟨p, ProfilePayload.fromWireBytes_toWireBytes h⟩

/-- The two checks at the other end, on an answer that fits a frame. -/
theorem accepted_answer {p : ProfilePayload} (hown : OwnProfile side p)
    {peer : Address} {now : UInt64} {nonce : Nonce} {answer : SignedEnvelope}
    {stream : List UInt8}
    (hanswer : answer = .signWith .profileDeliver side (some peer)
      p.toWireBytes now nonce)
    (hsend : sendEnvelope answer = .ok stream) :
    ∃ p', fetchProfile crypto side.publicBytes stream = .ok p'
      ∧ profileDelivered crypto answer = some p' := by
  have hframe : answer.toWireBytes.length ≤ maxEnvelopeLen :=
    (sendEnvelope_ok_iff answer).mp ⟨stream, hsend⟩
  have hmax : maxEnvelopeLen = 65536 := rfl
  have hlen : p.toWireBytes.length < 2 ^ 64 := by
    rw [hanswer, length_signWith, envelopeSize_eq] at hframe
    have hstring := le_stringSize p.toWireBytes.length
    omega
  have hrecv := recvEnvelope_sendEnvelope
    (fromWireBytes_signWith side hanswer (by omega)) hsend
  obtain ⟨p', hp'⟩ := hown.deliverable peer now nonce stream (hanswer ▸ hsend)
  have hside : p'.side = side.publicBytes :=
    (side_of_fromWireBytes hlen hp').trans hown.ofSide
  have hpayload : answer.payload = p.toWireBytes := by rw [hanswer]; rfl
  have hfrom : answer.fromSide = side.publicBytes := by rw [hanswer]; rfl
  have htype : answer.messageType = .profileDeliver := by rw [hanswer]; rfl
  refine ⟨p', ?_, ?_⟩
  · simp [fetchProfile, hrecv, htype, hpayload, hp', hside, hfrom]
  · simp [profileDelivered, hpayload, hp', hside, hfrom]

theorem profileFetch_answer {n : ServingNode crypto} {env : SignedEnvelope}
    {io : ServeIo} {p : ProfilePayload}
    (hpayload : env.payload = n.side.publicBytes.val)
    (hprofile : n.profile = some p) :
    (n.profileFetch env io).answer
      = some (n.signResponse env.fromSide .profileDeliver p.toWireBytes
        (io.clock 0) (io.nonces 0)) := by
  have hlen : env.payload.length = 32 := by
    rw [hpayload]
    exact n.side.publicBytes.property
  unfold ServingNode.profileFetch
  rw [if_neg (not_not.mpr hlen), if_neg (not_not.mpr hpayload), hprofile]
  rfl

/-- It is so iff the profile installed, if any, is one of the side's. -/
theorem publishesOwn_iff {s : Side} (haddress : s.address = side.publicBytes) :
    PublishesOwn side s ↔ ∀ p, s.profile = some p → OwnProfile side p := by
  constructor
  · intro h p hp
    refine ⟨(h.own p hp).1.trans haddress, (h.own p hp).2, ?_⟩
    intro peer now nonce stream hsend
    let n : ServingNode crypto :=
      { side, seed := Bytes.fill 32 0, profile := s.profile
        lifecycle := .created, relationships := [], retiredSeen := []
        coHolders := [], pendingPairings := .empty, store := .empty, peers := []
        verses := .empty }
    let fetch : SignedEnvelope :=
      { version := Core.protocolVersion, messageType := .profileFetch
        fromSide := peer, toSide := none, timestamp := 0, nonce
        payload := side.publicBytes.val, sig := Bytes.fill _ 0 }
    let io : ServeIo := ⟨fun _ => now, fun _ => nonce⟩
    have hanswer : (n.profileFetch fetch io).answer
        = some (.signWith .profileDeliver side (some peer) p.toWireBytes now
          nonce) := profileFetch_answer rfl hp
    obtain ⟨p', -, hp'⟩ := h.accepted n fetch _ _ stream rfl rfl hanswer hsend
    unfold profileDelivered at hp'
    split at hp'
    case h_1 => cases hp'
    case h_2 payload hpayload => exact ⟨payload, hpayload⟩
  · intro h
    refine ⟨fun p hp => ⟨(h p hp).ofSide.trans haddress.symm, (h p hp).signed⟩,
      fun n env io answer stream hside hprofile hanswer hsend => ?_⟩
    unfold ServingNode.profileFetch at hanswer
    split at hanswer
    · cases hanswer
    · split at hanswer
      · cases hanswer
      · rw [hprofile] at hanswer
        cases hp : s.profile with
        | none =>
            rw [hp] at hanswer
            cases hanswer
        | some p =>
            rw [hp] at hanswer
            rw [haddress]
            subst hside
            exact accepted_answer (h p hp) (Option.some.inj hanswer).symm hsend

-- ============================================================ the steps

/-- What a step may bring: a profile set locally reads back if it fits a
frame, and one that a delta or a bundle installs is the side's. -/
def BringsOwn (side : Signer crypto) (s : Side) : ProfileAction → Prop
  | .setLocalProfile p =>
      p.side = s.address → ProfileSigned crypto p →
        p.toWireBytes.length < 2 ^ 64 → Deliverable side p
  | .applyDelta (.profileUpdated wire) _ _ =>
      ∀ p, ProfilePayload.fromWireBytes crypto wire = .ok p →
        (∀ cur, s.profile = some cur → cur.updatedAt ≤ p.updatedAt) →
          p.side = s.address
  | .applyDelta _ _ _ => True
  | .acceptPairing bundle _ _ _ _ _ =>
      ∀ wire p, bundle.profileWire = some wire →
        ProfilePayload.fromWireBytes crypto wire = .ok p → p.side = s.address
  | .reload _ _ => True

/-- Nothing but the side's profiles, in memory or in the row. -/
structure PublishInv (side : Signer crypto) (s : Side) : Prop where
  address : s.address = side.publicBytes
  keypair : s.keypair.publicBytes = s.address
  installed : ∀ p, s.profile = some p → OwnProfile side p
  row : ∀ p, SideStore.profileOf crypto s.address s.store.tables
    = .ok (some p) → p.side = side.publicBytes

theorem PublishInv.keep {s s' : Side} (h : PublishInv side s)
    (hkeep : KeepsProfile s s') : PublishInv side s' where
  address := hkeep.address.trans h.address
  keypair := by rw [hkeep.keypair, hkeep.address, h.keypair]
  installed p hp := h.installed p (hkeep.profile.symm.trans hp)
  row p hp := by
    apply h.row p
    unfold SideStore.profileOf at hp ⊢
    rwa [hkeep.row, hkeep.address] at hp

/-- A profile is written through. -/
theorem PublishInv.set {s : Side} {p : ProfilePayload} (h : PublishInv side s)
    (hown : OwnProfile side p)
    (hreads : ∀ p', ProfilePayload.fromWireBytes crypto p.toWireBytes = .ok p' →
      p'.side = side.publicBytes) : PublishInv side (s.setProfile p) where
  address := h.address
  keypair := h.keypair
  installed p' hp' := by
    cases hp'
    exact hown
  row p' hp' := by
    change SideStore.profileOf crypto s.address
      (SideStore.upsertProfile s.address p s.store).2.tables
        = .ok (some p') at hp'
    rw [SideStore.upsertProfile, SideStore.execute_snd] at hp'
    dsimp only at hp'
    split at hp'
    case isTrue => exact h.row p' hp'
    case isFalse =>
      simp only [SideStore.profileOf, Table.insert_self] at hp'
      cases hread : ProfilePayload.fromWireBytes crypto p.toWireBytes with
      | error e =>
          rw [hread] at hp'
          cases hp'
      | ok q =>
          rw [hread] at hp'
          cases hp'
          exact hreads p' hread

/-- One that came in bytes reads back from its own. -/
theorem PublishInv.setRead {s : Side} {wire : List UInt8} {p : ProfilePayload}
    (h : PublishInv side s)
    (hread : ProfilePayload.fromWireBytes crypto wire = .ok p)
    (hside : p.side = side.publicBytes) : PublishInv side (s.setProfile p) := by
  refine h.set (ownProfile_of_fromWireBytes hread hside) fun p' hp' => ?_
  have hsame := ProfilePayload.fromWireBytes_toWireBytes hread
  rw [hsame] at hp'
  cases hp'
  exact hside

theorem PublishInv.clear {s : Side} (h : PublishInv side s) :
    PublishInv side s.clearProfile where
  address := h.address
  keypair := h.keypair
  installed p hp := by cases hp
  row p hp := by
    change SideStore.profileOf crypto s.address
      (SideStore.deleteProfile s.address s.store).2.tables
        = .ok (some p) at hp
    rw [SideStore.deleteProfile, SideStore.execute_snd] at hp
    dsimp only at hp
    split at hp
    case isTrue => exact h.row p hp
    case isFalse =>
      simp only [SideStore.profileOf, Table.erase_self] at hp
      cases hp

theorem fromWireBytes_of_profileOf {address : Address} {t : Tables}
    {p : ProfilePayload}
    (h : SideStore.profileOf crypto address t = .ok (some p)) :
    ∃ wire, ProfilePayload.fromWireBytes crypto wire = .ok p := by
  unfold SideStore.profileOf at h
  split at h
  case h_1 => cases h
  case h_2 row _ =>
    split at h
    case h_1 q hq =>
      cases h
      exact ⟨row.wireBytes, hq⟩
    case h_2 => cases h

/-- A load has nothing but what the row had. -/
theorem publishInv_load {key : SideKey} {label : Option String} {now : UInt64}
    {store : SideStore} {s : Side} (hkey : key.publicBytes = side.publicBytes)
    (hrow : ∀ p, SideStore.profileOf crypto side.publicBytes store.tables
      = .ok (some p) → p.side = side.publicBytes)
    (hload : Side.loadOrCreate crypto key label now store = .ok s) :
    PublishInv side s := by
  obtain ⟨haddress, hkeypair, hrows, hprofile⟩ := loadOrCreate_profile hload
  rw [hkey] at haddress hprofile
  refine ⟨haddress, ?_, fun p hp => ?_, fun p hp => ?_⟩
  · rw [hkeypair, hkey, haddress]
  · rcases hprofile with hnone | hread
    · rw [hnone] at hp
      cases hp
    · rw [hp] at hread
      obtain ⟨wire, hwire⟩ := fromWireBytes_of_profileOf hread
      exact ownProfile_of_fromWireBytes hwire (hrow p hread)
  · apply hrow p
    unfold SideStore.profileOf at hp ⊢
    rwa [hrows, haddress] at hp

/-- What a bundle's replay comes to. -/
theorem installBundle_cases (crypto : Crypto) (s : Side)
    (bundle : StateBundleInner) (devicePubkey existing : Address)
    (dialAddr : String) (clock : Nat → Nat → UInt64) (now : UInt64) :
    let s' := (s.installBundle crypto bundle devicePubkey existing dialAddr
      clock now).2
    (∃ e, bundle.profileWire.mapM (ProfilePayload.fromWireBytes crypto)
        = .error e ∧ s' = s)
      ∨ (bundle.profileWire = none ∧ KeepsProfile s s')
      ∨ ∃ wire p, bundle.profileWire = some wire
        ∧ ProfilePayload.fromWireBytes crypto wire = .ok p
        ∧ KeepsProfile (s.setProfile p) s' := by
  have hreplay (t : Side) : KeepsProfile t
      (((((t.forEach (fun s rec _ => s.addRelationship
          (relationshipFromRecord rec)) bundle.relationships (clock 0)).forEach
        Side.markRetiredSeen bundle.retiredSides (clock 0)).forEach
          (fun s dev now => if dev = devicePubkey then s
            else s.addCoHolder dev none now) bundle.coHolders
          (clock 1)).setLifecycle (parseLifecycle bundle.lifecycle)
        |>.recordCoHolderAddr existing dialAddr now).addCoHolder existing
          (some devicePubkey) now) := by
    have hrelationships := keeps_forEach
      (f := fun s rec _ => s.addRelationship (relationshipFromRecord rec))
      (fun s rec _ => keeps_addRelationship s _) bundle.relationships t
      (clock 0)
    have hretired (t) := keeps_forEach (f := Side.markRetiredSeen)
      keeps_markRetiredSeen bundle.retiredSides t (clock 0)
    have hcoHolders (t) := keeps_forEach
      (f := fun s dev now => if dev = devicePubkey then s
        else s.addCoHolder dev none now)
      (fun s dev now => by
        split
        · exact .refl s
        · exact keeps_addCoHolder ..) bundle.coHolders t (clock 1)
    have hloops := (hrelationships.trans (hretired _)).trans (hcoHolders _)
    exact ((hloops.trans (keeps_setLifecycle ..)).trans
      (keeps_recordCoHolderAddr ..)).trans (keeps_addCoHolder ..)
  intro s'
  cases hwire : bundle.profileWire with
  | none =>
      refine .inr (.inl ⟨rfl, ?_⟩)
      simp only [s', Side.installBundle, Side.replayBundle, hwire]
      exact hreplay s
  | some wire =>
      cases hread : ProfilePayload.fromWireBytes crypto wire with
      | error e =>
          refine .inl ⟨e, ?_, ?_⟩
          · simp only [Option.mapM_some, hread]
            rfl
          · simp only [s', Side.installBundle, Side.replayBundle, hwire,
              Option.mapM_some, hread]
            rfl
      | ok p =>
          refine .inr (.inr ⟨wire, p, rfl, hread, ?_⟩)
          simp only [s', Side.installBundle, Side.replayBundle, hwire,
            Option.mapM_some, hread]
          exact hreplay (s.setProfile p)

/-- A profile from a delta is installed unless a newer one is. -/
theorem applyDelta_profileUpdated {s : Side} {wire : List UInt8}
    {p : ProfilePayload} {appliedAt now : UInt64}
    (hread : ProfilePayload.fromWireBytes crypto wire = .ok p) :
    s.applyDelta crypto (.profileUpdated wire) appliedAt now = s.applyProfile p := by
  simp only [Side.applyDelta, hread]

theorem applyProfile_cases (s : Side) (p : ProfilePayload) :
    (∀ cur, s.profile = some cur → cur.updatedAt ≤ p.updatedAt)
        ∧ s.applyProfile p = s.setProfile p
      ∨ s.applyProfile p = s
        ∧ ¬ ∀ cur, s.profile = some cur → cur.updatedAt ≤ p.updatedAt := by
  unfold Side.applyProfile
  cases hcur : s.profile with
  | none => exact .inl ⟨nofun, rfl⟩
  | some cur =>
      by_cases hnewer : p.updatedAt ≥ cur.updatedAt
      · refine .inl ⟨fun _ h => ?_, if_pos hnewer⟩
        cases h
        exact hnewer
      · exact .inr ⟨if_neg hnewer, fun h => hnewer (h cur rfl)⟩

theorem publishInv_step {s s' : Side} {a : ProfileAction}
    (hok : BringsOwn side s a) (h : PublishInv side s)
    (hstep : profileStep crypto s a = some s') : PublishInv side s' := by
  cases a with
  | setLocalProfile p =>
      simp only [profileStep] at hstep
      split at hstep
      case isTrue hp =>
        cases hstep
        obtain ⟨hside, hsigned, hlen⟩ := hp
        have hown : OwnProfile side p := ⟨hside.trans h.address, hsigned,
          hok hside hsigned hlen⟩
        refine h.set hown fun p' hp' => ?_
        exact (side_of_fromWireBytes hlen hp').trans hown.ofSide
      case isFalse => cases hstep
  | applyDelta op appliedAt now =>
      cases hstep
      cases op with
      | profileUpdated wire =>
          cases hread : ProfilePayload.fromWireBytes crypto wire with
          | error e =>
              simp only [Side.applyDelta, hread]
              exact h
          | ok p =>
              rw [applyDelta_profileUpdated hread]
              rcases applyProfile_cases s p with ⟨hnewer, hset⟩ | ⟨hsame, -⟩
              · rw [hset]
                exact h.setRead hread ((hok p hread hnewer).trans h.address)
              · rw [hsame]
                exact h
      | profileCleared => exact h.clear
      | relationshipUpserted rec =>
          exact h.keep (keeps_applyDelta (by simp) (by simp))
      | relationshipRemoved addr =>
          exact h.keep (keeps_applyDelta (by simp) (by simp))
      | retiredObserved addr =>
          exact h.keep (keeps_applyDelta (by simp) (by simp))
      | lifecycleChanged state =>
          exact h.keep (keeps_applyDelta (by simp) (by simp))
      | coHolderAdded dev dial =>
          exact h.keep (keeps_applyDelta (by simp) (by simp))
      | coHolderRemoved dev =>
          exact h.keep (keeps_applyDelta (by simp) (by simp))
  | acceptPairing bundle devicePubkey existing dialAddr clock now =>
      cases hstep
      rcases installBundle_cases crypto s bundle devicePubkey existing dialAddr
        clock now with ⟨e, -, hsame⟩ | ⟨-, hkeep⟩ | ⟨wire, p, hwire, hread, hkeep⟩
      · rw [hsame]
        exact h
      · exact h.keep hkeep
      · have hside := (hok wire p hwire hread).trans h.address
        exact (h.setRead hread hside).keep hkeep
  | reload label now =>
      simp only [profileStep] at hstep
      split at hstep
      case h_1 t hload =>
        cases hstep
        refine publishInv_load (h.keypair.trans h.address) ?_ hload
        rw [← h.address]
        exact fun p hp => (h.row p hp).trans h.address.symm
      case h_2 => cases hstep

/-- A profile that is not as it should be shows at once. -/
theorem not_publishesOwn_step {s : Side} {a : ProfileAction}
    (h : PublishInv side s) (hnot : ¬ BringsOwn side s a) :
    ∃ s', profileStep crypto s a = some s' ∧ ¬ PublishesOwn side s' := by
  cases a with
  | setLocalProfile p =>
      simp only [BringsOwn, Classical.not_imp] at hnot
      obtain ⟨hside, hsigned, hlen, hundeliverable⟩ := hnot
      refine ⟨s.setProfile p, if_pos ⟨hside, hsigned, hlen⟩, fun hown => ?_⟩
      have hpublished := (publishesOwn_iff h.address (s := s.setProfile p)).mp hown
      exact hundeliverable (hpublished p rfl).deliverable
  | applyDelta op appliedAt now =>
      refine ⟨_, rfl, fun hown => hnot ?_⟩
      cases op with
      | profileUpdated wire =>
          intro p hread hnewer
          rw [applyDelta_profileUpdated hread] at hown
          rcases applyProfile_cases s p with ⟨-, hset⟩ | ⟨-, holder⟩
          · rw [hset] at hown
            exact (hown.own p rfl).1
          · exact absurd hnewer holder
      | profileCleared | relationshipUpserted rec | relationshipRemoved addr
      | retiredObserved addr | lifecycleChanged state
      | coHolderAdded dev dial | coHolderRemoved dev => trivial
  | acceptPairing bundle devicePubkey existing dialAddr clock now =>
      refine ⟨_, rfl, fun hown => hnot fun wire p hwire hread => ?_⟩
      rcases installBundle_cases crypto s bundle devicePubkey existing dialAddr
        clock now with ⟨e, herror, -⟩ | ⟨hnone, -⟩ | ⟨wire', p', hwire', hread', hkeep⟩
      · rw [hwire, Option.mapM_some, hread] at herror
        cases herror
      · rw [hnone] at hwire
        cases hwire
      · rw [hwire] at hwire'
        cases hwire'
        rw [hread] at hread'
        cases hread'
        have hp := (hown.own p hkeep.profile).1
        exact hp.trans hkeep.address
  | reload label now => exact absurd trivial hnot

/-- Through a run from a load, the profile installed is always the side's own
and always accepted where it is fetched, iff every step brings one that is. -/
theorem publishes_own_profile_iff (side : Signer crypto) {key : SideKey}
    {label : Option String} {now : UInt64} {store : SideStore} {s : Side}
    (hkey : key.publicBytes = side.publicBytes)
    (hrow : ∀ p, SideStore.profileOf crypto side.publicBytes store.tables
      = .ok (some p) → p.side = side.publicBytes)
    (hload : Side.loadOrCreate crypto key label now store = .ok s)
    (actions : List ProfileAction) :
    (∀ as bs s', as ++ bs = actions → run (profileStep crypto) s as = some s' →
        PublishesOwn side s')
      ↔ Along (profileStep crypto) (BringsOwn side) s actions := by
  refine along_iff (fun t h => (publishesOwn_iff h.address).mpr h.installed)
    (fun t a t' hok h hstep => publishInv_step hok h hstep)
    (fun t a h hnot => not_publishesOwn_step h hnot) ?_
  exact publishInv_load hkey hrow hload

end publishing

/-- A side on an empty store. -/
def publishingSide : Signer Crypto.legible := Signer.legible (Bytes.fill 32 1)

def publishingKey : SideKey := ⟨Bytes.fill 32 0, Bytes.fill 32 1⟩

def foreignSide : Signer Crypto.legible := Signer.legible (Bytes.fill 32 2)

def profileFrom (signer : Signer Crypto.legible) : ProfilePayload :=
  .sign signer (some "A") none none none none BTreeMap.empty 5

theorem own_reads :
    ProfilePayload.fromWireBytes Crypto.legible
        (profileFrom publishingSide).toWireBytes
      = .ok (profileFrom publishingSide) := by
  decide +kernel

theorem foreign_reads :
    ProfilePayload.fromWireBytes Crypto.legible
        (profileFrom foreignSide).toWireBytes
      = .ok (profileFrom foreignSide) := by
  decide +kernel

/-- The first profile is installed. -/
theorem applyDelta_first {s : Side} {wire : List UInt8} {p : ProfilePayload}
    (hnone : s.profile = none)
    (hread : ProfilePayload.fromWireBytes crypto wire = .ok p) :
    (s.applyDelta crypto (.profileUpdated wire) 5 5).profile = some p := by
  rw [applyDelta_profileUpdated hread, Side.applyProfile, hnone]
  rfl

theorem publishing_loads :
    ∃ s, Side.loadOrCreate Crypto.legible publishingKey none 0
        ⟨Tables.empty, []⟩ = .ok s
      ∧ s.profile = none ∧ s.address = publishingKey.publicBytes :=
  ⟨_, rfl, rfl, rfl⟩

/-- A co-holder pushes the side's own profile. -/
theorem publishes_own_profile_pushed :
    ∃ s s', Side.loadOrCreate Crypto.legible publishingKey none 0
        ⟨Tables.empty, []⟩ = .ok s
      ∧ run (profileStep Crypto.legible) s
        [.applyDelta (.profileUpdated (profileFrom publishingSide).toWireBytes)
          5 5] = some s'
      ∧ s'.profile = some (profileFrom publishingSide)
      ∧ PublishesOwn publishingSide s' := by
  obtain ⟨s, hload, hnone, haddress⟩ := publishing_loads
  refine ⟨s, _, hload, rfl, applyDelta_first hnone own_reads, ?_⟩
  refine (publishes_own_profile_iff publishingSide rfl ?_ hload
    [.applyDelta (.profileUpdated (profileFrom publishingSide).toWireBytes)
      5 5]).mpr ?_ _ [] _ (List.append_nil _) rfl
  · intro p hp
    cases hp
  · refine ⟨fun p hp _ => ?_, fun _ _ => trivial⟩
    rw [own_reads] at hp
    cases hp
    exact haddress.symm

/-- It pushes another side's, which is installed. -/
theorem foreign_profile_installed :
    ∃ s s' p, Side.loadOrCreate Crypto.legible publishingKey none 0
        ⟨Tables.empty, []⟩ = .ok s
      ∧ run (profileStep Crypto.legible) s
        [.applyDelta (.profileUpdated (profileFrom foreignSide).toWireBytes)
          5 5] = some s'
      ∧ s'.profile = some p ∧ p.side ≠ s'.address
      ∧ ¬ PublishesOwn publishingSide s' := by
  obtain ⟨s, hload, hnone, haddress⟩ := publishing_loads
  have hinstalled := @applyDelta_first _ s _ _ hnone foreign_reads
  have hne : (profileFrom foreignSide).side ≠ (s.applyDelta Crypto.legible
      (.profileUpdated (profileFrom foreignSide).toWireBytes) 5 5).address := by
    rw [applyDelta_profileUpdated foreign_reads, Side.applyProfile, hnone]
    change _ ≠ s.address
    rw [haddress]
    decide
  exact ⟨s, _, _, hload, rfl, hinstalled, hne,
    fun h => hne (h.own _ hinstalled).1⟩

end Sidevers.Proofs
