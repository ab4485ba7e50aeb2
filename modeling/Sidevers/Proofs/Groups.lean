/-
A group falls silent with the first rotation of its key.

The key of a row is the one its app was given when the group was created or
joined; a rotation installs the next one, and no call of the app takes the
push that carries it. So every row there is at a rotation is stale from then
on (`stale_of_rotated`), its moderator's among them, and what is posted from a
stale row opens under no key the verse will have (`dropped_step`). Only who
joins later can be read, until the next rotation.

A row that is not stale is of use only where its address leads to the endpoint
the verse is hosted on (`post_retained`). The address `create_group` writes
down is that of another endpoint (`ModeratorUnread`): the moderator's own
posts are read by nobody, and an invite with it lets nobody in.
-/
import Sidevers.Net.Groups
import Sidevers.Proofs.Membership
import Sidevers.Proofs.Retraction
import Sidevers.Proofs.VerseRemoval

namespace Sidevers.Proofs

open Sidevers.Core
open Sidevers.Lib
open Sidevers.Net

variable {crypto : Crypto} {sealPost : SealPost} {openPost : OpenPost}
  {wire : MembershipToken → List UInt8} {leads : LeadsTo}

-- ============================================================= statement

/-- The row is written, or about to be. -/
def HasRow (w : GroupWorld) (side : Address) (row : GroupRow) : Prop :=
  w.rows side = some row ∨ w.unwritten side = some row

/-- The key of the row is not the verse's any more. -/
def Stale (w : GroupWorld) (row : GroupRow) : Prop :=
  row.membership.contentKey < w.verse.host.contentKey

/-- The payload was sealed under the key. -/
def SealedUnder (sealPost : SealPost) (key : VerseContentKey)
    (payload : VersePostPayload) : Prop :=
  ∃ nonce body, payload = ⟨nonce, sealPost key nonce body⟩

-- =============================================================== a step

/-- What each action does. -/
inductive GroupStep (crypto : Crypto) (sealPost : SealPost)
    (openPost : OpenPost) (wire : MembershipToken → List UInt8)
    (leads : LeadsTo) (w : GroupWorld) : GroupAction → GroupWorld → Prop where
  | within (a : VerseAction) (verse : VerseWorld)
      (h : verseStep crypto openPost w.verse a = some verse) :
      GroupStep crypto sealPost openPost wire leads w (.within a)
        { w with verse }
  | create (side : Address) (now : UInt64) (listen : String)
      (verse : VerseWorld)
      (h : verseStep crypto openPost w.verse (.addLocalMember side now)
        = some verse) :
      GroupStep crypto sealPost openPost wire leads w (.create side now listen)
        ⟨verse, w.rows, w.unwritten.insert side
          (w.createRow crypto wire side now listen)⟩
  | join (conn : ConnId) (invite : InviteInfo) (io : CallIo) (side : Address)
      (share : KeyShare) (m : VerseMembership) (verse : VerseWorld)
      (hs : w.verse.sessions conn = some ⟨side, .joinSend share⟩)
      (hleads : leads side invite.dialAddr = true)
      (hjoin : requestJoin crypto side invite.contract (.accept
        (share.push wire w.verse.host.verse io.nonce).payload) = .ok m)
      (h : verseStep crypto openPost w.verse (.tick conn (some io.now))
        = some verse) :
      GroupStep crypto sealPost openPost wire leads w (.join conn invite io)
        ⟨verse, w.rows, w.unwritten.insert side
          (GroupWorld.joinRow invite m io)⟩
  | written (side : Address) (row : GroupRow)
      (hrow : w.unwritten side = some row) :
      GroupStep crypto sealPost openPost wire leads w (.persist side true)
        ⟨w.verse, w.rows.insert side row, w.unwritten.erase side⟩
  | lost (side : Address) (row : GroupRow)
      (hrow : w.unwritten side = some row) :
      GroupStep crypto sealPost openPost wire leads w (.persist side false)
        ⟨w.verse, w.rows, w.unwritten.erase side⟩
  | post (side : Address) (conn : ConnId) (body : List UInt8) (io : CallIo)
      (row : GroupRow) (verse : VerseWorld) (hrow : w.rows side = some row)
      (hleads : row.dialAddr.any (leads side) = true)
      (hs : w.verse.sessions conn = some ⟨side, .accept⟩)
      (h : verseStep crypto openPost w.verse (.receive conn (postMessage
        (postToVerse sealPost side row.membership body io))) = some verse) :
      GroupStep crypto sealPost openPost wire leads w (.post side conn body io)
        { w with verse }
  | unread (side : Address) (conn : ConnId) (body : List UInt8) (io : CallIo)
      (row : GroupRow) (hrow : w.rows side = some row)
      (hleads : ¬ row.dialAddr.any (leads side) = true) :
      GroupStep crypto sealPost openPost wire leads w (.post side conn body io)
        w
  | left (side : Address) (io : CallIo) (row : GroupRow)
      (hrow : w.rows side = some row) :
      GroupStep crypto sealPost openPost wire leads w (.leave side none io)
        { w with rows := w.rows.erase side }
  | leave (side : Address) (conn : ConnId) (io : CallIo) (row : GroupRow)
      (verse : VerseWorld) (hrow : w.rows side = some row)
      (hs : w.verse.sessions conn = some ⟨side, .accept⟩)
      (h : verseStep crypto openPost w.verse (.receive conn
        (leaveVerse side row.membership io)) = some verse) :
      GroupStep crypto sealPost openPost wire leads w
        (.leave side (some conn) io) ⟨verse, w.rows.erase side, w.unwritten⟩

theorem groupStep_cases {w w' : GroupWorld} {a : GroupAction}
    (h : groupStep crypto sealPost openPost wire leads w a = some w') :
    GroupStep crypto sealPost openPost wire leads w a w' := by
  cases a with
  | within a =>
      obtain ⟨verse, hverse, rfl⟩ := Option.map_eq_some_iff.mp h
      exact .within a verse hverse
  | create side now listen =>
      simp only [groupStep] at h
      obtain ⟨w₁, hw₁, rfl⟩ := Option.map_eq_some_iff.mp h
      obtain ⟨verse, hverse, rfl⟩ := Option.map_eq_some_iff.mp hw₁
      exact .create side now listen verse hverse
  | join conn invite io =>
      simp only [groupStep] at h
      split at h
      case h_2 => cases h
      case h_1 side share hs =>
        split at h
        case isFalse => cases h
        case isTrue hleads =>
          split at h
          case h_1 => cases h
          case h_2 m hjoin =>
            obtain ⟨w₁, hw₁, rfl⟩ := Option.map_eq_some_iff.mp h
            obtain ⟨verse, hverse, rfl⟩ := Option.map_eq_some_iff.mp hw₁
            exact .join conn invite io side share m verse hs hleads hjoin
              hverse
  | persist side written =>
      simp only [groupStep] at h
      split at h
      case h_1 => cases h
      case h_2 row hrow =>
        cases written with
        | true =>
            cases h
            exact .written side row hrow
        | false =>
            cases h
            exact .lost side row hrow
  | post side conn body io =>
      simp only [groupStep] at h
      split at h
      case h_1 => cases h
      case h_2 row hrow =>
        split at h
        case isFalse hleads =>
          cases h
          exact .unread side conn body io row hrow hleads
        case isTrue hleads =>
          split at h
          case h_2 => cases h
          case h_1 peer hs =>
            split at h
            case isFalse => cases h
            case isTrue hok =>
              subst hok
              obtain ⟨verse, hverse, rfl⟩ := Option.map_eq_some_iff.mp h
              exact .post peer conn body io row verse hrow hleads hs hverse
  | leave side conn io =>
      simp only [groupStep] at h
      split at h
      case h_1 => cases h
      case h_2 row hrow =>
        cases conn with
        | none =>
            cases h
            exact .left side io row hrow
        | some conn =>
            dsimp only at h
            split at h
            case h_2 => cases h
            case h_1 peer hs =>
              split at h
              case isFalse => cases h
              case isTrue hok =>
                obtain ⟨rfl, -⟩ := hok
                obtain ⟨verse, hverse, rfl⟩ := Option.map_eq_some_iff.mp h
                exact .leave peer conn io row verse hrow hs hverse

/-- The verse stays, or takes a step of its own. -/
theorem groupStep_verse {w w' : GroupWorld} {a : GroupAction}
    (hstep : groupStep crypto sealPost openPost wire leads w a = some w') :
    w'.verse = w.verse
      ∨ ∃ va, verseStep crypto openPost w.verse va = some w'.verse := by
  cases groupStep_cases hstep with
  | within a verse h => exact .inr ⟨_, h⟩
  | create side now listen verse h => exact .inr ⟨_, h⟩
  | join conn invite io side share m verse hs hleads hjoin h =>
      exact .inr ⟨_, h⟩
  | written | lost | left | unread => exact .inl rfl
  | post side conn body io row verse hrow hleads hs h => exact .inr ⟨_, h⟩
  | leave side conn io row verse hrow hs h => exact .inr ⟨_, h⟩

-- =============================================================== the rows

/-- The key a joining app is given is that of the share it was sent. -/
theorem requestJoin_key {side : Address} {contract : ContractObject}
    {share : KeyShare} {verse : Address} {nonce : Nonce} {m : VerseMembership}
    (h : requestJoin crypto side contract
      (.accept (share.push wire verse nonce).payload) = .ok m) :
    m.contentKey = share.key := by
  simp only [requestJoin, KeyShare.push] at h
  split at h
  case h_1 => cases h
  case h_2 token htoken =>
    split at h
    case isTrue => cases h
    case isFalse =>
      split at h
      case isTrue => cases h
      case isFalse =>
        split at h
        case h_1 => cases h
        case h_2 key hkey =>
          cases h
          simp only [openContentKey, SealedContentKey.open] at hkey
          by_cases hsides : s(verse, share.member) = s(contract.verse, side)
          · simp [hsides] at hkey
            exact hkey.symm
          · simp [hsides] at hkey

/-- A row that a call has just made: for the moderator, with the address of
its new endpoint, or for who was answered, with the address of the invite. -/
inductive RowMade (crypto : Crypto) (wire : MembershipToken → List UInt8)
    (leads : LeadsTo) (w : GroupWorld) (side : Address) (row : GroupRow) :
    GroupAction → Prop where
  | created (now : UInt64) (listen : String)
      (hrow : row = w.createRow crypto wire side now listen) :
      RowMade crypto wire leads w side row (.create side now listen)
  | joined (conn : ConnId) (invite : InviteInfo) (io : CallIo)
      (share : KeyShare) (m : VerseMembership)
      (hs : w.verse.sessions conn = some ⟨side, .joinSend share⟩)
      (hleads : leads side invite.dialAddr = true)
      (hkey : m.contentKey = share.key)
      (hrow : row = GroupWorld.joinRow invite m io) :
      RowMade crypto wire leads w side row (.join conn invite io)

/-- A row after a step was there before, or was just made. -/
theorem groupStep_row {w w' : GroupWorld} {a : GroupAction}
    (hstep : groupStep crypto sealPost openPost wire leads w a = some w')
    {side : Address} {row : GroupRow} (hrow : HasRow w' side row) :
    HasRow w side row ∨ RowMade crypto wire leads w side row a := by
  have hunwritten {s : Address} {r : GroupRow}
      (h : w.unwritten.insert s r side = some row) :
      HasRow w side row ∨ s = side ∧ r = row := by
    rw [Table.insert_apply] at h
    by_cases hs : side = s
    · rw [if_pos hs] at h
      exact .inr ⟨hs.symm, Option.some.inj h⟩
    · rw [if_neg hs] at h
      exact .inl (.inr h)
  have herased {s : Address} {t : Table Address GroupRow}
      (h : t.erase s side = some row) : t side = some row := by
    rw [Table.erase_apply] at h
    split at h
    · cases h
    · exact h
  cases groupStep_cases hstep with
  | within | post | unread => exact .inl hrow
  | create s now listen verse h =>
      rcases hrow with hrow | hrow
      · exact .inl (.inl hrow)
      · rcases hunwritten hrow with hold | ⟨rfl, rfl⟩
        · exact .inl hold
        · exact .inr (.created now listen rfl)
  | join conn invite io s share m verse hs hleads hjoin h =>
      rcases hrow with hrow | hrow
      · exact .inl (.inl hrow)
      · rcases hunwritten hrow with hold | ⟨rfl, rfl⟩
        · exact .inl hold
        · exact .inr (.joined conn invite io share m hs hleads
            (requestJoin_key hjoin) rfl)
  | written s r hr =>
      rcases hrow with hrow | hrow
      · dsimp only at hrow
        rw [Table.insert_apply] at hrow
        by_cases hs : side = s
        · rw [if_pos hs] at hrow
          cases hrow
          exact .inl (.inr (hs ▸ hr))
        · rw [if_neg hs] at hrow
          exact .inl (.inl hrow)
      · exact .inl (.inr (herased hrow))
  | lost s r hr =>
      rcases hrow with hrow | hrow
      · exact .inl (.inl hrow)
      · exact .inl (.inr (herased hrow))
  | left s io r hr =>
      rcases hrow with hrow | hrow
      · exact .inl (.inl (herased hrow))
      · exact .inl (.inr hrow)
  | leave s conn io r verse hr hs h =>
      rcases hrow with hrow | hrow
      · exact .inl (.inl (herased hrow))
      · exact .inl (.inr hrow)

/-- The verse is one that was hosted with this contract, and no row has a key
it has not generated yet. -/
structure GroupInv (crypto : Crypto) (openPost : OpenPost)
    (contract : ContractObject) (w : GroupWorld) : Prop where
  verse : Reachable (verseStep crypto openPost) (.init (.new contract)) w.verse
  rows : ∀ side row, HasRow w side row →
    row.membership.contentKey ≤ w.verse.host.contentKey

/-- What a step makes has no later key than the verse before it. -/
theorem GroupInv.row_le {contract : ContractObject} {w w' : GroupWorld}
    {a : GroupAction} (hinv : GroupInv crypto openPost contract w)
    (hstep : groupStep crypto sealPost openPost wire leads w a = some w')
    {side : Address} {row : GroupRow} (hrow : HasRow w' side row) :
    row.membership.contentKey ≤ w.verse.host.contentKey := by
  rcases groupStep_row hstep hrow with hold | hmade
  · exact hinv.rows side row hold
  · cases hmade with
    | created now listen hrow =>
        subst hrow
        exact Nat.le_refl _
    | joined conn invite io share m hs hleads hkey hrow =>
        subst hrow
        show m.contentKey ≤ _
        rw [hkey]
        apply keysGenerated_of_reachable hinv.verse share
        exact .inFlight side (.held conn _ hs rfl)

theorem groupInv_step {contract : ContractObject} {w w' : GroupWorld}
    {a : GroupAction} (hinv : GroupInv crypto openPost contract w)
    (hstep : groupStep crypto sealPost openPost wire leads w a = some w') :
    GroupInv crypto openPost contract w' := by
  rcases groupStep_verse hstep with hsame | ⟨va, hva⟩
  · refine ⟨hsame ▸ hinv.verse, fun side row hrow => ?_⟩
    rw [hsame]
    exact hinv.row_le hstep hrow
  · obtain ⟨acts, hacts⟩ := hinv.verse
    refine ⟨⟨acts ++ [va], ?_⟩, fun side row hrow => ?_⟩
    · rw [run_concat, hacts]
      exact hva
    · exact Nat.le_trans (hinv.row_le hstep hrow) (contentKey_le_step hva)

theorem groupInv_run {contract : ContractObject} {w : GroupWorld}
    {acts : List GroupAction}
    (hrun : run (groupStep crypto sealPost openPost wire leads)
      (.init contract) acts = some w) :
    GroupInv crypto openPost contract w := by
  have hinit : GroupInv crypto openPost contract (.init contract) :=
    ⟨⟨[], rfl⟩, fun side row hrow => by rcases hrow with h | h <;> cases h⟩
  exact run_induct (fun _ _ _ _ h hs => groupInv_step h hs) (along_true _ _)
    hinit hrun

/-- With a new key every row is stale. -/
theorem stale_of_rotated {contract : ContractObject} {w w' : GroupWorld}
    {a : GroupAction} (hinv : GroupInv crypto openPost contract w)
    (hstep : groupStep crypto sealPost openPost wire leads w a = some w')
    (hkey : w'.verse.host.contentKey ≠ w.verse.host.contentKey)
    {side : Address} {row : GroupRow} (hrow : HasRow w' side row) :
    Stale w' row := by
  have hle := hinv.row_le hstep hrow
  rcases groupStep_verse hstep with hsame | ⟨va, hva⟩
  · exact absurd (congrArg (fun v => v.host.contentKey) hsame) hkey
  · exact Nat.lt_of_le_of_lt hle
      (Nat.lt_of_le_of_ne (contentKey_le_step hva) (Ne.symm hkey))

-- =============================================================== the posts

/-- From a moment on, what is sealed under a key is kept only if it was. -/
structure Dropped (sealPost : SealPost) (key : VerseContentKey)
    (w₀ : GroupWorld) (w : VerseWorld) : Prop where
  later : key < w.host.contentKey
  verse : w.host.verse = w₀.verse.host.verse
  stored : ∀ side, ∀ stored ∈ w.host.posts.bucket w.host.verse side,
    SealedUnder sealPost key stored.sealedPayload →
      stored ∈ w₀.verse.host.posts.bucket w₀.verse.host.verse side
      ∨ ∃ conn peer, w₀.verse.sessions conn
        = some ⟨peer, .postRetain stored.envelope⟩
  opened : ∀ conn peer post, w.sessions conn = some ⟨peer, .postRetain post⟩ →
    SealedUnder sealPost key post.payload →
      ∃ conn peer, w₀.verse.sessions conn = some ⟨peer, .postRetain post⟩

theorem dropped_step (hseal : PostSeals sealPost openPost)
    {key : VerseContentKey} {w₀ : GroupWorld} {w w' : VerseWorld}
    {a : VerseAction} (h : Dropped sealPost key w₀ w)
    (hstep : verseStep crypto openPost w a = some w') :
    Dropped sealPost key w₀ w' := by
  have hverse := (contract_step hstep).1
  refine ⟨Nat.lt_of_lt_of_le h.later (contentKey_le_step hstep),
    hverse.trans h.verse, fun side stored hmem hsealed => ?_,
    fun conn peer post hs' hsealed => ?_⟩
  · rw [hverse] at hmem
    rcases posts_step hstep with hsame | ⟨conn, peer, pc, hs, hposts⟩
    · rw [hsame] at hmem
      exact h.stored side stored hmem hsealed
    · cases hposts with
      | same hsame =>
          rw [hsame] at hmem
          exact h.stored side stored hmem hsealed
      | retracted author hret =>
          rw [hret, bucket_retractByAuthor] at hmem
          split at hmem
          · cases hmem
          · exact h.stored side stored hmem hsealed
      | retained post storedAt hpc hret =>
          rw [hret] at hmem
          rcases mem_bucket_addPost hmem with hmem | ⟨-, rfl⟩
          · exact h.stored side stored hmem hsealed
          · subst hpc
            exact .inr (h.opened conn peer post hs hsealed)
  · obtain ⟨pc, hpc⟩ : ∃ pc, pc = ServePc.postRetain post := ⟨_, rfl⟩
    rw [← hpc] at hs'
    cases sessions_step hstep hs' with
    | same _ hs => exact h.opened conn peer post (hpc ▸ hs) hsealed
    | opened => cases hpc
    | received env ha hs =>
        exact absurd hpc serveReceive_not_waiting.2
    | ticked io pc₀ t next ha hs ht hnext =>
        obtain ⟨-, hopen⟩ := serveTick_retaining ht (hpc ▸ hnext)
        obtain ⟨nonce, body, hpayload⟩ := hsealed
        rw [hpayload, hseal, if_neg (Nat.ne_of_gt h.later)] at hopen
        exact absurd rfl hopen

theorem dropped_run (hseal : PostSeals sealPost openPost)
    {key : VerseContentKey} {w w' : GroupWorld} {acts : List GroupAction}
    (hlater : key < w.verse.host.contentKey)
    (hrun : run (groupStep crypto sealPost openPost wire leads) w acts
      = some w') : Dropped sealPost key w w'.verse := by
  have hstart : Dropped sealPost key w w.verse :=
    ⟨hlater, rfl, fun _ _ hmem _ => .inl hmem,
      fun conn peer _ hs _ => ⟨conn, peer, hs⟩⟩
  have hstep : ∀ (v : GroupWorld) (a : GroupAction) (v' : GroupWorld), True →
      Dropped sealPost key w v.verse →
      groupStep crypto sealPost openPost wire leads v a = some v' →
      Dropped sealPost key w v'.verse := by
    intro v a v' _ h hs
    rcases groupStep_verse hs with hsame | ⟨va, hva⟩
    · exact hsame ▸ h
    · exact dropped_step hseal h hva
  exact run_induct hstep (along_true _ _) hstart hrun

-- ==================================================== a post that is kept

/-- The steps of a verse are steps of its group. -/
theorem run_within {w : GroupWorld} {verse : VerseWorld}
    {acts : List VerseAction}
    (h : run (verseStep crypto openPost) w.verse acts = some verse) :
    run (groupStep crypto sealPost openPost wire leads) w (acts.map .within)
      = some { w with verse } := by
  induction acts generalizing w with
  | nil =>
      cases h
      rfl
  | cons a rest ih =>
      rw [run_cons] at h
      obtain ⟨next, hnext, hrest⟩ := Option.bind_eq_some_iff.mp h
      have hstep : groupStep crypto sealPost openPost wire leads w (.within a)
          = some { w with verse := next } := by
        simp only [groupStep, GroupWorld.onVerse, hnext, Option.map_some]
      rw [List.map_cons, run_cons, hstep]
      exact ih (w := { w with verse := next }) hrest

/-- A post is in the log once it was added. -/
theorem addPost_has (store : VersePostStore) (verse author : Address)
    (post : StoredVersePost) :
    ∃ stored ∈ (store.addPost verse author post).bucket verse author,
      stored.envelope.nonce = post.envelope.nonce := by
  unfold VersePostStore.addPost
  by_cases hany : (store.bucket verse author).any
      (fun p => p.envelope.nonce = post.envelope.nonce)
  · rw [if_pos hany]
    obtain ⟨p, hp, heq⟩ := List.any_eq_true.mp hany
    exact ⟨p, hp, of_decide_eq_true heq⟩
  · rw [if_neg hany]
    refine ⟨post, ?_, rfl⟩
    simp [VersePostStore.bucket]

/-- A step of a handler that goes on. -/
theorem tick_goes (crypto : Crypto) (openPost : OpenPost) {v : VerseWorld}
    {conn : ConnId} {peer : Address} {pc pc' : ServePc} {h : VerseHost}
    {es : List VerseEvent}
    (hs : v.sessions conn = some ⟨peer, pc⟩)
    (ht : serveTick crypto openPost v.host peer conn none pc
      = some (.go h pc' es)) :
    ∃ v', verseStep crypto openPost v (.tick conn none) = some v'
      ∧ v'.host = h ∧ v'.sessions conn = some ⟨peer, pc'⟩ := by
  refine ⟨_, verseStep_tick hs ht, ?_, ?_⟩
  · rw [applySession_host]
    rfl
  · rw [applySession_sessions, if_pos rfl]
    rfl

/-- A member's post under the current key is kept. -/
theorem post_retained (hseal : PostSeals sealPost openPost) {w : GroupWorld}
    {side : Address} {row : GroupRow} {conn : ConnId} (body : List UInt8)
    (io : CallIo) (hrow : w.rows side = some row)
    (hleads : row.dialAddr.any (leads side) = true)
    (hs : w.verse.sessions conn = some ⟨side, .accept⟩)
    (hadmits : w.verse.host.admits side w.verse.host.contract.version)
    (hkey : row.membership.contentKey = w.verse.host.contentKey) :
    ∃ w', run (groupStep crypto sealPost openPost wire leads) w
        (.post side conn body io
          :: (List.replicate 4 (.tick conn none)).map .within) = some w'
      ∧ ∃ stored ∈ w'.verse.host.posts.bucket w.verse.host.verse side,
        stored.envelope.nonce = io.nonce := by
  let post := postToVerse sealPost side row.membership body io
  let v₀ : VerseWorld := { w.verse with
    sessions := w.verse.sessions.insert conn ⟨side, .postVersion post⟩ }
  have hpost : groupStep crypto sealPost openPost wire leads w
      (.post side conn body io) = some { w with verse := v₀ } := by
    simp only [groupStep, hrow, hs, hleads, if_true, GroupWorld.onVerse,
      verseStep]
    rfl
  have hs₀ : v₀.sessions conn = some ⟨side, .postVersion post⟩ :=
    Table.insert_self ..
  -- the version is read, the author is a member at it, and the key opens
  obtain ⟨v₁, hv₁, hhost₁, hs₁⟩ := tick_goes crypto openPost hs₀ rfl
  have hadmit : serveTick crypto openPost v₁.host side conn none
      (.postAdmit post v₀.host.contract.version)
      = some (.go v₁.host (.postOpen post)
        [.admitted post (v₁.host.contract.hash crypto)]) := by
    rw [hhost₁]
    exact if_pos hadmits
  obtain ⟨v₂, hv₂, hhost₂, hs₂⟩ := tick_goes crypto openPost hs₁ hadmit
  have hopen : serveTick crypto openPost v₂.host side conn none
      (.postOpen post) = some (.go v₂.host (.postRetain post) []) := by
    have hplain : openPost v₂.host.contentKey post.payload = some body := by
      rw [hhost₂, hhost₁]
      show openPost w.verse.host.contentKey ⟨io.sealNonce,
        sealPost row.membership.contentKey io.sealNonce body⟩ = some body
      rw [hseal, if_pos hkey.symm]
    simp only [serveTick, hplain]
  obtain ⟨v₃, hv₃, hhost₃, hs₃⟩ := tick_goes crypto openPost hs₂ hopen
  obtain ⟨v₄, hv₄, hhost₄, -⟩ := tick_goes crypto openPost hs₃ rfl
  have hrun : run (verseStep crypto openPost) v₀
      (List.replicate 4 (.tick conn none)) = some v₄ := by
    simp only [List.replicate, run_cons, hv₁, hv₂, hv₃, hv₄, Option.bind_some,
      run_nil]
  refine ⟨{ w with verse := v₄ }, ?_, ?_⟩
  · rw [run_cons, hpost]
    exact run_within (w := { w with verse := v₀ }) hrun
  · have hverse : v₃.host.verse = w.verse.host.verse := by
      rw [hhost₃, hhost₂, hhost₁]
    dsimp only
    rw [hhost₄]
    dsimp only
    rw [hverse]
    exact addPost_has _ _ side _

-- ============================================ the address that is written

/-- The address leads nobody to the endpoint that hosts the verse. -/
def Apart (leads : LeadsTo) (addr : String) : Prop :=
  ∀ side, leads side addr = false

/-- What `create_group` is bound to is another endpoint, where it is run. -/
def CreatesApart (leads : LeadsTo) : GroupAction → Prop
  | .create _ _ listen => Apart leads listen
  | _ => True

/-- The address in a moderator's row leads nobody to the verse. -/
def ModeratorUnread (leads : LeadsTo) (w : GroupWorld) : Prop :=
  ∀ side row, HasRow w side row → row.role = "moderator" →
    ∃ listen, row.dialAddr = some listen ∧ Apart leads listen

theorem moderatorUnread_step {w w' : GroupWorld} {a : GroupAction}
    (hapart : CreatesApart leads a) (h : ModeratorUnread leads w)
    (hstep : groupStep crypto sealPost openPost wire leads w a = some w') :
    ModeratorUnread leads w' := by
  intro side row hrow hrole
  rcases groupStep_row hstep hrow with hold | hmade
  · exact h side row hold hrole
  · cases hmade with
    | created now listen hrow =>
        subst hrow
        exact ⟨listen, rfl, hapart⟩
    | joined conn invite io share m hs hleads hkey hrow =>
        -- a join writes the row of a member
        subst hrow
        simp [GroupWorld.joinRow] at hrole

theorem moderatorUnread_run {contract : ContractObject} {w : GroupWorld}
    {acts : List GroupAction} (hapart : ∀ a ∈ acts, CreatesApart leads a)
    (hrun : run (groupStep crypto sealPost openPost wire leads)
      (.init contract) acts = some w) : ModeratorUnread leads w := by
  have hinit : ModeratorUnread leads (.init contract) :=
    fun side row hrow => by rcases hrow with h | h <;> cases h
  have halong : Along (groupStep crypto sealPost openPost wire leads)
      (fun _ a => CreatesApart leads a) (.init contract) acts :=
    along_of_forall _ _ fun a ha _ => hapart a ha
  exact run_induct (fun _ _ _ hok h hs => moderatorUnread_step hok h hs)
    halong hinit hrun

/-- What is posted to an address apart changes nothing. -/
theorem post_apart {w w' : GroupWorld} {side : Address} {row : GroupRow}
    {listen : String} {conn : ConnId} {body : List UInt8} {io : CallIo}
    (hrow : w.rows side = some row) (haddr : row.dialAddr = some listen)
    (hapart : Apart leads listen)
    (hstep : groupStep crypto sealPost openPost wire leads w
      (.post side conn body io) = some w') : w' = w := by
  cases groupStep_cases hstep with
  | unread => rfl
  | post _ _ _ _ row' verse hrow' hleads =>
      rw [hrow] at hrow'
      cases hrow'
      rw [haddr, Option.any_some, hapart side] at hleads
      cases hleads

/-- No join is answered there. -/
theorem join_apart (w : GroupWorld) {invite : InviteInfo}
    (hapart : Apart leads invite.dialAddr) (conn : ConnId) (io : CallIo) :
    groupStep crypto sealPost openPost wire leads w (.join conn invite io)
      = none := by
  cases hstep : groupStep crypto sealPost openPost wire leads w
      (.join conn invite io) with
  | none => rfl
  | some w' =>
      cases groupStep_cases hstep with
      | join _ _ _ side share m verse hs hleads =>
          rw [hapart side] at hleads
          cases hleads

-- ============================================================= the theorem

/-- A seal that shows its key: as many zeros, and a one. -/
def sealCounted : SealPost := fun key _ body =>
  List.replicate key 0 ++ 1 :: body

/-- Takes as many zeros off, and a one. -/
def afterZeros : Nat → List UInt8 → Option (List UInt8)
  | 0, 1 :: body => some body
  | key + 1, 0 :: rest => afterZeros key rest
  | _, _ => none

/-- It opens under that key. -/
def openCounted : OpenPost := fun key post => afterZeros key post.ciphertext

theorem counted_seals : PostSeals sealCounted openCounted := by
  intro key key' nonce body
  show afterZeros key (List.replicate key' 0 ++ 1 :: body) = _
  induction key generalizing key' with
  | zero =>
      cases key' with
      | zero => rfl
      | succ key' => rfl
  | succ key ih =>
      cases key' with
      | zero => rfl
      | succ key' => simpa [List.replicate_succ, afterZeros] using ih key'

def groupModerator : Address := Bytes.fill 32 3

def groupMember : Address := Bytes.fill 32 2

def groupIo : CallIo := ⟨Bytes.fill 12 0, Bytes.fill 16 0, 6⟩

/-- Its moderator creates a group, another side is a member of it, and leaves;
the rotation that follows has not begun. -/
def memberLeaves : List GroupAction :=
  [.create groupModerator 5 "127.0.0.1:2", .persist groupModerator true,
    .within (.addLocalMember groupMember 5),
    .within (.openSession groupMember), .within (.tick 0 none),
    .within (.tick 0 none),
    .within (.receive 0 (leaveVerse groupMember
      ⟨Bytes.fill 32 1, Bytes.fill 32 0, [], 0⟩ groupIo)),
    .within (.tick 0 none)]

/-- A group on the machine of its moderator: the verse is on port 1, and the
moderator's new endpoint on port 2. -/
def leadsLocally : LeadsTo := fun _ addr => addr == "127.0.0.1:1"

end Sidevers.Proofs
