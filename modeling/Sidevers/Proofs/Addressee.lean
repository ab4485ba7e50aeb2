/-
Whom an envelope is for (`Net.Endpoint`, `Net.VerseNode`).

No loop compares an envelope's `to` with the side or the verse it serves.
What decides is the payload:

- `serveDirect_isFor`: a Direct payload with an addressee of its own has an
  effect only where that addressee is hosted;
- `serveDirect_readdressed`, `serveStorage_readdressed`,
  `route_readdressed`: the same envelope under another `to` is handled
  alike, except that a `VERSE_POST` is routed by it;
- `VerseNode.Placed`: what a verse's handlers still have to do names this
  verse, in every reachable state of a node.
-/
import Sidevers.Lib.Run
import Sidevers.Net.Endpoint
import Sidevers.Net.VerseNode
import Sidevers.Proofs.VerseSteps

namespace Sidevers.Proofs

open Sidevers.Core
open Sidevers.Lib
open Sidevers.Net

variable {crypto : Crypto}
  {openPost : VerseContentKey → VersePostPayload → Option (List UInt8)}

/-- The envelope under another `to`. -/
def readdress {P : Type} (env : Envelope P) (toSide : Option Address) :
    Envelope P := { env with toSide }

-- ============================================================== Direct

/-- The payload names the side, was sealed for it, or is its author's own
record, which names no recipient. -/
def IsFor (side : Address) (env : Envelope DirectPayload) : Prop :=
  match env.payload with
  | .directMessage sealed =>
      ∃ plaintext, sealed = .box s(env.fromSide, side) env.nonce plaintext
  | .profileFetch queried => queried = side.val
  | .devicePairingRequest req => req.side = side
  | .deviceRevoke record => record.side = side
  | .stateDelta delta => delta.side = side
  | .profileDeliver profile => profile.side = env.fromSide
  | .sideRetirement record => record.side = env.fromSide
  | .linkagePublish proof =>
      env.fromSide = proof.sideA ∨ env.fromSide = proof.sideB
  | .deviceStateBundle => False
  | .other => False

/-- Ideal sealing: what opens was sealed for the two sides, under this
nonce. -/
theorem SealedPayload.eq_of_open {sealed : SealedPayload}
    {recipient sender : Address} {nonce : Nonce} {plaintext : List UInt8}
    (h : sealed.open recipient sender nonce = some plaintext) :
    sealed = .box s(sender, recipient) nonce plaintext := by
  cases sealed with
  | box sides n p =>
      simp only [SealedPayload.open] at h
      split at h
      case isTrue heq =>
        obtain ⟨rfl, rfl⟩ := heq
        injection h with h
        rw [h]
      case isFalse => cases h
  | bytes b => cases h

/-- A Direct envelope that is not for the hosted side changes nothing. -/
theorem serveDirect_isFor {sent : Bool} {clock : Nat → UInt64}
    {e : Endpoint} {env : Envelope DirectPayload}
    (h : e.serveDirect crypto sent clock env ≠ e) :
    IsFor e.side.address env := by
  unfold IsFor
  unfold Endpoint.serveDirect at h
  cases hp : env.payload with
  | directMessage sealed =>
      simp only [hp] at h ⊢
      split at h
      · exact absurd rfl h
      · cases ho : sealed.open e.side.address env.fromSide env.nonce with
        | none =>
            simp only [ho] at h
            exact absurd rfl h
        | some plaintext => exact ⟨plaintext, SealedPayload.eq_of_open ho⟩
  | profileFetch queried =>
      simp only [hp] at h ⊢
      by_contra hne
      rw [if_pos hne, ite_self] at h
      exact h rfl
  | profileDeliver profile =>
      simp only [hp] at h ⊢
      by_contra hne
      rw [if_pos hne] at h
      exact h rfl
  | sideRetirement record =>
      simp only [hp] at h ⊢
      by_contra hne
      rw [if_pos hne] at h
      exact h rfl
  | linkagePublish proof =>
      simp only [hp] at h ⊢
      by_contra hne
      rw [if_pos (not_or.mp hne)] at h
      exact h rfl
  | devicePairingRequest req =>
      simp only [hp] at h ⊢
      by_contra hne
      rw [if_pos hne] at h
      exact h rfl
  | deviceStateBundle =>
      simp only [hp] at h
      exact h rfl
  | deviceRevoke record =>
      simp only [hp] at h ⊢
      by_contra hne
      rw [Side.handleDeviceRevoke, if_pos hne] at h
      exact h rfl
  | stateDelta delta =>
      simp only [hp] at h ⊢
      by_contra hne
      rw [Side.handleStateDelta, if_pos hne] at h
      exact h rfl
  | other =>
      simp only [hp] at h
      exact h rfl

/-- What was surfaced, without the `to` it carries along. -/
def unaddressed : Surfaced → Surfaced
  | .directMessage env plaintext =>
      .directMessage (readdress env none) plaintext
  | .profile env profile => .profile (readdress env none) profile
  | .linkage env proof => .linkage (readdress env none) proof

/-- An endpoint, up to the `to` of what it surfaced. -/
def SameButAddressed (e e' : Endpoint) : Prop :=
  e'.side = e.side ∧ e'.store = e.store ∧ e'.provenance = e.provenance
    ∧ e'.sent = e.sent
    ∧ e'.surfaced.map unaddressed = e.surfaced.map unaddressed

theorem SameButAddressed.refl (e : Endpoint) : SameButAddressed e e :=
  ⟨rfl, rfl, rfl, rfl, rfl⟩

theorem SameButAddressed.surface {e : Endpoint} {s s' : Surfaced}
    (h : unaddressed s' = unaddressed s) :
    SameButAddressed (e.surface s) (e.surface s') := by
  refine ⟨rfl, rfl, rfl, rfl, ?_⟩
  show (e.surfaced ++ [s']).map unaddressed
    = (e.surfaced ++ [s]).map unaddressed
  rw [List.map_append, List.map_append, List.map_singleton,
    List.map_singleton, h]

/-- A check that does not read `to`, and returns if it fails. -/
theorem SameButAddressed.check {e e₁ e₂ : Endpoint} (failed : Prop)
    [Decidable failed] (h : SameButAddressed e₁ e₂) :
    SameButAddressed (if failed then e else e₁)
      (if failed then e else e₂) := by
  split
  · exact .refl e
  · exact h

/-- `serve_direct` does the same whatever `to` is. -/
theorem serveDirect_readdressed (sent : Bool) (clock : Nat → UInt64)
    (e : Endpoint) (env : Envelope DirectPayload)
    (toSide : Option Address) :
    SameButAddressed (e.serveDirect crypto sent clock env)
      (e.serveDirect crypto sent clock (readdress env toSide)) := by
  obtain ⟨messageType, sender, recipient, timestamp, nonce, payload⟩ := env
  cases payload with
  | directMessage sealed =>
      refine .check _ ?_
      dsimp only [readdress]
      cases sealed.open e.side.address sender nonce with
      | none => exact .refl e
      | some plaintext => exact .surface rfl
  | profileDeliver profile => exact .check _ (.surface rfl)
  | linkagePublish proof => exact .check _ (.surface rfl)
  -- the other payloads do not keep the envelope
  | _ => exact .refl _

/-- `serve_storage` does the same whatever `to` is. -/
theorem serveStorage_readdressed (sent : Bool)
    (followUp : Option StorageHavePayload) (e : Endpoint)
    (env : Envelope StoragePayload) (toSide : Option Address) :
    e.serveStorage crypto sent followUp (readdress env toSide)
      = e.serveStorage crypto sent followUp env := rfl

-- =============================================================== Verse

/-- How the verse a message is routed to follows from the message. -/
def RoutedTo (r : VerseRouting) (env : Envelope VerseMessage)
    (verse : Address) : Prop :=
  match env.payload with
  | .versePost _ => env.toSide = some verse ∨ verse = r.defaultAddr
  | .joinRequest req =>
      r.index req.contractHash = some verse ∨ verse = r.defaultAddr
  | .verseLeave leave => leave.verse = verse
  | .verseRemove remove => remove.verse = verse
  | .contractFetch => verse = r.defaultAddr
  | .verseReconsent _ => verse = r.defaultAddr
  | .other => False

/-- A choice among the hosted verses, with the default behind it. -/
theorem eq_of_filter_getD {choice : Option Address} {hosted : Address → Bool}
    {dflt verse : Address}
    (h : (choice.filter hosted).getD dflt = verse) :
    choice = some verse ∨ verse = dflt := by
  cases hc : choice.filter hosted with
  | none =>
      rw [hc] at h
      exact Or.inr h.symm
  | some v =>
      rw [hc] at h
      obtain ⟨hsome, -⟩ := Option.filter_eq_some_iff.mp hc
      exact Or.inl (h ▸ hsome)

theorem route_routedTo {r : VerseRouting} {env : Envelope VerseMessage}
    {verse : Address} (h : r.route env = some verse) :
    RoutedTo r env verse := by
  unfold RoutedTo
  unfold VerseRouting.route at h
  cases hp : env.payload with
  | contractFetch =>
      simp only [hp, Option.some.injEq] at h
      exact h.symm
  | joinRequest req =>
      simp only [hp, Option.some.injEq] at h
      exact eq_of_filter_getD h
  | versePost post =>
      simp only [hp, Option.some.injEq] at h
      exact eq_of_filter_getD h
  | verseLeave leave =>
      simp only [hp] at h
      split at h
      · cases h
      · split at h
        · injection h
        · cases h
  | verseRemove remove =>
      simp only [hp] at h
      split at h
      · injection h
      · cases h
  | verseReconsent recon =>
      simp only [hp, Option.some.injEq] at h
      exact h.symm
  | other =>
      simp only [hp] at h
      cases h

/-- Only a post is routed by `to`. -/
theorem route_readdressed (r : VerseRouting) {env : Envelope VerseMessage}
    (toSide : Option Address)
    (hpost : ∀ post, env.payload ≠ .versePost post) :
    r.route (readdress env toSide) = r.route env := by
  obtain ⟨messageType, sender, recipient, timestamp, nonce, payload⟩ := env
  cases payload with
  | versePost post => exact absurd rfl (hpost post)
  | _ => rfl

/-- Nor is any other dispatched by it. -/
theorem serveReceive_readdressed (h : VerseHost) (arrived : Nat)
    {env : Envelope VerseMessage} (toSide : Option Address)
    (hpost : ∀ post, env.payload ≠ .versePost post) :
    serveReceive h arrived (readdress env toSide)
      = serveReceive h arrived env := by
  obtain ⟨messageType, sender, recipient, timestamp, nonce, payload⟩ := env
  cases payload with
  | versePost post => exact absurd rfl (hpost post)
  | _ => rfl

/-- What a session on the verse has left to do names the verse. -/
def NamesVerse (crypto : Crypto) (verse : Address) : ServePc → Prop
  | .joinSeal _ req _ contract =>
      contract.verse = verse ∧ req.contractHash = contract.hash crypto
  | .joinInsert _ req _ contract _ =>
      contract.verse = verse ∧ req.contractHash = contract.hash crypto
  | .leave leave => leave.verse = verse
  | .retract leave => leave.verse = verse
  | .moderate _ remove => remove.verse = verse
  | .remove remove => remove.verse = verse
  | _ => True

/-- A verse is at its address, and so is what its sessions have left to
do. -/
structure Placed (crypto : Crypto) (verse : Address) (w : VerseWorld) :
    Prop where
  host : w.host.verse = verse
  contract : w.host.contract.verse = verse
  sessions : ∀ {conn peer pc}, w.sessions conn = some ⟨peer, pc⟩ →
    NamesVerse crypto verse pc

theorem serveReceive_names {h : VerseHost} {arrived : Nat}
    {env : Envelope VerseMessage} :
    NamesVerse crypto h.verse (serveReceive h arrived env) := by
  unfold serveReceive
  split
  case h_4 leave hp =>
      split
      · exact trivial
      · split
        · exact trivial
        case isFalse hverse => exact not_not.mp hverse
  case h_5 remove hp =>
      split
      · exact trivial
      case isFalse hverse => exact not_not.mp hverse
  all_goals exact trivial

theorem joinProblem_none {contract : ContractObject}
    {req : JoinRequestPayload}
    (h : VerseHost.joinProblem crypto contract req = none) :
    req.contractHash = contract.hash crypto := by
  unfold VerseHost.joinProblem at h
  by_contra hne
  rw [if_pos hne] at h
  cases h

theorem serveTick_names {h : VerseHost} {peer : Address} {conn : ConnId}
    {io : Option UInt64} {pc next : ServePc} {t : Tick ServePc}
    (ht : serveTick crypto openPost h peer conn io pc = some t)
    (hnext : t.next = some next) (hcontract : h.contract.verse = h.verse)
    (hpc : NamesVerse crypto h.verse pc) :
    NamesVerse crypto h.verse next := by
  cases pc with
  | accept => cases ht
  | drain =>
      simp only [serveTick] at ht
      split at ht <;> (cases ht; cases hnext; exact trivial)
  | joinCheck fromSide req arrived =>
      simp only [serveTick] at ht
      split at ht
      case h_1 => cases ht; cases hnext; exact trivial
      case h_2 hproblem =>
          cases ht
          cases hnext
          exact ⟨hcontract, joinProblem_none hproblem⟩
  | joinSeal fromSide req arrived contract =>
      cases io <;> cases ht <;> cases hnext
      exact hpc
  | leave leave =>
      cases ht
      injection hnext with hnext
      subst hnext
      split
      · exact trivial
      · split
        · exact hpc
        · exact trivial
  | moderate fromSide remove =>
      simp only [serveTick] at ht
      split at ht <;> (cases ht; cases hnext)
      · exact hpc
      · exact trivial
  | remove remove =>
      cases ht
      injection hnext with hnext
      subst hnext
      split <;> exact trivial
  | rotating pc =>
      cases ht
      injection hnext with hnext
      subst hnext
      cases (rotateTick crypto h io pc).next <;> exact trivial
  | reconsent fromSide contractHash =>
      simp only [serveTick] at ht
      split at ht <;> (cases ht; cases hnext; exact trivial)
  | postAdmit post version =>
      simp only [serveTick] at ht
      split at ht <;> (cases ht; cases hnext; exact trivial)
  | postOpen post =>
      simp only [serveTick] at ht
      split at ht <;> (cases ht; cases hnext; exact trivial)
  -- the next step names no verse
  | _ => cases io <;> cases ht <;> cases hnext <;> exact trivial

theorem placed_step {w w' : VerseWorld} {a : VerseAction} {verse : Address}
    (h : Placed crypto verse w)
    (hstep : verseStep crypto openPost w a = some w') :
    Placed crypto verse w' := by
  obtain ⟨hhost, hamended⟩ := contract_step hstep
  refine ⟨hhost.trans h.host, ?_, fun {conn peer pc} hs' => ?_⟩
  · rcases hamended with hsame | ⟨contract, -, hverse, hnew⟩
    · exact hsame ▸ h.contract
    · exact hnew ▸ hverse.trans h.host
  · cases sessions_step hstep hs' with
    | same _ hs => exact h.sessions hs
    | opened ha => exact trivial
    | received env ha hs => exact h.host ▸ serveReceive_names
    | ticked io pc₀ t _ ha hs ht hnext =>
        rw [← h.host]
        exact serveTick_names ht hnext (h.contract.trans h.host.symm)
          (h.host ▸ h.sessions hs)

/-- What dispatching a message does to a node: nothing, or the verse it is
routed to takes a step with it. -/
theorem receive_dispatch {n n' : VerseNode} {session : Nat}
    {env : Envelope VerseMessage}
    (hstep : verseNodeStep crypto openPost n (.receive session env)
      = some n') :
    n' = n ∨ ∃ r verse w conn w₁, n.sessions session = some r
      ∧ r.route env = some verse ∧ n.verses verse = some w
      ∧ verseStep crypto openPost w (.receive conn env) = some w₁
      ∧ n' = n.setVerse verse w₁ := by
  simp only [verseNodeStep] at hstep
  split at hstep
  case h_1 => cases hstep
  case h_2 r hr =>
      split at hstep
      case isTrue => cases hstep
      case isFalse =>
          split at hstep
          case h_1 =>
              injection hstep with hstep
              exact Or.inl hstep.symm
          case h_2 verse hverse =>
              split at hstep
              case h_1 w conn hw hconn =>
                  obtain ⟨w₁, hw₁, rfl⟩ := Option.map_eq_some_iff.mp hstep
                  exact Or.inr
                    ⟨r, verse, w, conn, w₁, hr, hverse, hw, hw₁, rfl⟩
              case h_2 => cases hstep

/-- Where the state of a hosted verse comes from: it was just hosted, took
a step of its own, or is as before. -/
theorem verses_step {n n' : VerseNode} {a : VerseNodeAction}
    (hstep : verseNodeStep crypto openPost n a = some n')
    {verse : Address} {w' : VerseWorld} (hw' : n'.verses verse = some w') :
    (∃ contract, contract.verse = verse ∧ w' = .init (.new contract))
      ∨ (∃ w b, n.verses verse = some w
        ∧ verseStep crypto openPost w b = some w')
      ∨ n.verses verse = some w' := by
  cases a with
  | host contract =>
      simp only [verseNodeStep] at hstep
      split at hstep
      case h_1 => cases hstep
      case h_2 =>
          injection hstep with hstep
          subst hstep
          rcases (Table.insert_eq_some_iff ..).mp hw' with
            ⟨rfl, rfl⟩ | ⟨-, hold⟩
          · exact Or.inl ⟨contract, rfl, rfl⟩
          · exact Or.inr (Or.inr hold)
  | openSession peer =>
      simp only [verseNodeStep] at hstep
      split at hstep
      case h_1 =>
          injection hstep with hstep
          subst hstep
          exact Or.inr (Or.inr hw')
      case h_2 r hr =>
          injection hstep with hstep
          subst hstep
          obtain ⟨w, hw, hopen⟩ := Option.bind_eq_some_iff.mp hw'
          exact Or.inr (Or.inl ⟨w, .openSession peer, hw, hopen⟩)
  | receive session env =>
      rcases receive_dispatch hstep with rfl |
        ⟨r, v, w, conn, w₁, -, -, hw, hw₁, rfl⟩
      · exact Or.inr (Or.inr hw')
      · rcases (Table.insert_eq_some_iff ..).mp hw' with
          ⟨rfl, rfl⟩ | ⟨-, hold⟩
        · exact Or.inr (Or.inl ⟨w, .receive conn env, hw, hw₁⟩)
        · exact Or.inr (Or.inr hold)
  | within v b =>
      have hb : (n.verses v).bind (fun w =>
          (verseStep crypto openPost w b).map (n.setVerse v)) = some n' := by
        cases b with
        | openSession => cases hstep
        | receive => cases hstep
        | _ =>
            simp only [verseNodeStep] at hstep
            split at hstep
            case h_1 => cases hstep
            case h_2 w hw =>
                rw [hw]
                exact hstep
      obtain ⟨w, hw, hmap⟩ := Option.bind_eq_some_iff.mp hb
      obtain ⟨w₁, hw₁, rfl⟩ := Option.map_eq_some_iff.mp hmap
      rcases (Table.insert_eq_some_iff ..).mp hw' with ⟨rfl, rfl⟩ | ⟨-, hold⟩
      · exact Or.inr (Or.inl ⟨w, b, hw, hw₁⟩)
      · exact Or.inr (Or.inr hold)

/-- What the verse does with it: the session starts to handle it. -/
theorem receive_cases {n n' : VerseNode} {session : Nat}
    {env : Envelope VerseMessage}
    (hstep : verseNodeStep crypto openPost n (.receive session env)
      = some n') :
    n' = n ∨ ∃ r verse w conn peer, n.sessions session = some r
      ∧ r.route env = some verse ∧ n.verses verse = some w
      ∧ w.sessions conn = some ⟨peer, .accept⟩
      ∧ n' = n.setVerse verse { w with
        sessions := w.sessions.insert conn
          ⟨peer, serveReceive w.host w.log.length env⟩ } := by
  rcases receive_dispatch hstep with hsame |
    ⟨r, verse, w, conn, w₁, hr, hverse, hw, hw₁, rfl⟩
  · exact Or.inl hsame
  · cases verseStep_cases hw₁ with
    | receive _ _ peer hs =>
        exact Or.inr ⟨r, verse, w, conn, peer, hr, hverse, hw, hs, rfl⟩

/-- A verse that was just hosted is placed. -/
theorem placed_init (contract : ContractObject) :
    Placed crypto contract.verse (.init (.new contract)) :=
  ⟨rfl, rfl, nofun⟩

/-- Every verse of a node is placed. -/
theorem placed_of_reachable {n : VerseNode}
    (hn : Reachable (verseNodeStep crypto openPost) VerseNode.init n) :
    ∀ {verse w}, n.verses verse = some w → Placed crypto verse w := by
  refine @Reachable.induct _ _ _ (fun n => ∀ {verse w},
    n.verses verse = some w → Placed crypto verse w) _ ?_ ?_ _ hn
  · exact nofun
  · intro n a n' hinv hstep verse w' hw'
    rcases verses_step hstep hw' with ⟨contract, rfl, rfl⟩ |
      ⟨w, b, hw, hb⟩ | hold
    · exact placed_init contract
    · exact placed_step (hinv hw) hb
    · exact hinv hold

-- ============================================================= effects

/-- The step of a session changed who is a member, a consent or the posts,
or is followed by a rotation of the key. -/
def Acted (h : VerseHost) (t : Tick ServePc) : Prop :=
  t.host.members ≠ h.members ∨ t.host.consentedVersions ≠ h.consentedVersions
    ∨ t.host.posts ≠ h.posts ∨ t.next = some (.rotating .rotate)

/-- The steps that act, each on what its message says of the verse. A post
says nothing of it: it was routed. -/
inductive ActsFor (crypto : Crypto) (verse : Address) (h : VerseHost) :
    ServePc → Prop where
  | join (fromSide : Address) (req : JoinRequestPayload) (arrived : Nat)
      (contract : ContractObject) (share : KeyShare)
      (hverse : contract.verse = verse)
      (hhash : req.contractHash = contract.hash crypto) :
      ActsFor crypto verse h (.joinInsert fromSide req arrived contract share)
  | leave (leave : VerseLeavePayload) (hverse : leave.verse = verse) :
      ActsFor crypto verse h (.leave leave)
  | retract (leave : VerseLeavePayload) (hverse : leave.verse = verse) :
      ActsFor crypto verse h (.retract leave)
  | remove (remove : VerseRemovePayload) (hverse : remove.verse = verse) :
      ActsFor crypto verse h (.remove remove)
  | reconsent (fromSide : Address) (contractHash : Bytes 32)
      (hverse : h.contract.verse = verse)
      (hhash : contractHash = h.contract.hash crypto) :
      ActsFor crypto verse h (.reconsent fromSide contractHash)
  | post (post : Envelope VersePostPayload) :
      ActsFor crypto verse h (.postRetain post)

theorem not_acted {h h' : VerseHost} {next : Option ServePc}
    {events : List VerseEvent}
    {spawned : Option (Table Address (ConnId × KeyShare))}
    (hmembers : h'.members = h.members)
    (hconsents : h'.consentedVersions = h.consentedVersions)
    (hposts : h'.posts = h.posts)
    (hnext : next ≠ some (.rotating .rotate)) :
    ¬ Acted h ⟨h', next, events, spawned⟩ := by
  rintro (hne | hne | hne | heq)
  · exact hne hmembers
  · exact hne hconsents
  · exact hne hposts
  · exact hnext heq

theorem rotateTick_not_acted (crypto : Crypto) (h : VerseHost)
    (io : Option UInt64) (pc : RotatePc) :
    ¬ Acted h ⟨(rotateTick crypto h io pc).host,
      some (((rotateTick crypto h io pc).next.map .rotating).getD .accept),
      (rotateTick crypto h io pc).events,
      (rotateTick crypto h io pc).spawned⟩ := by
  cases pc <;> cases io <;> exact not_acted rfl rfl rfl nofun

theorem serveTick_actsFor {h : VerseHost} {peer : Address} {conn : ConnId}
    {io : Option UInt64} {pc : ServePc} {t : Tick ServePc} {verse : Address}
    (ht : serveTick crypto openPost h peer conn io pc = some t)
    (hacted : Acted h t) (hcontract : h.contract.verse = verse)
    (hpc : NamesVerse crypto verse pc) : ActsFor crypto verse h pc := by
  cases pc with
  | accept => cases ht
  | joinInsert fromSide req arrived contract share =>
      exact .join fromSide req arrived contract share hpc.1 hpc.2
  | leave leave => exact .leave leave hpc
  | retract leave => exact .retract leave hpc
  | remove remove => exact .remove remove hpc
  | postRetain post => exact .post post
  | reconsent fromSide contractHash =>
      simp only [serveTick] at ht
      split at ht
      case h_1 =>
          cases ht
          exact absurd hacted (not_acted rfl rfl rfl (by simp))
      case h_2 h' hr =>
          exact .reconsent fromSide contractHash hcontract (reconsent_eq hr).1
  | rotating pc =>
      cases ht
      exact absurd hacted (rotateTick_not_acted crypto h io pc)
  | drain =>
      simp only [serveTick] at ht
      split at ht <;>
        (cases ht; exact absurd hacted (not_acted rfl rfl rfl (by simp)))
  | joinCheck fromSide req arrived =>
      simp only [serveTick] at ht
      split at ht <;>
        (cases ht; exact absurd hacted (not_acted rfl rfl rfl (by simp)))
  | moderate fromSide remove =>
      simp only [serveTick] at ht
      split at ht <;>
        (cases ht; exact absurd hacted (not_acted rfl rfl rfl (by simp)))
  | postAdmit post version =>
      simp only [serveTick] at ht
      split at ht <;>
        (cases ht; exact absurd hacted (not_acted rfl rfl rfl (by simp)))
  | postOpen post =>
      simp only [serveTick] at ht
      split at ht <;>
        (cases ht; exact absurd hacted (not_acted rfl rfl rfl (by simp)))
  -- what is left writes the sessions, the stash or a stream
  | _ =>
      cases io <;>
        (cases ht; exact absurd hacted (not_acted rfl rfl rfl (by simp)))

-- ============================================================== result

/-- Whom an envelope is for is what its payload says. -/
theorem payload_decides_addressee (crypto : Crypto)
    (openPost : VerseContentKey → VersePostPayload → Option (List UInt8)) :
    -- Direct: an effect only where the payload is for the hosted side,
    (∀ sent clock (e : Endpoint) env,
      e.serveDirect crypto sent clock env ≠ e → IsFor e.side.address env)
    -- and the same one under any `to`;
    ∧ (∀ sent clock (e : Endpoint) env toSide,
      SameButAddressed (e.serveDirect crypto sent clock env)
        (e.serveDirect crypto sent clock (readdress env toSide)))
    -- Storage: the same under any `to`;
    ∧ (∀ sent followUp (e : Endpoint) env toSide,
      e.serveStorage crypto sent followUp (readdress env toSide)
        = e.serveStorage crypto sent followUp env)
    -- Verse: `to` routes posts and nothing else,
    ∧ (∀ (r : VerseRouting) h arrived env toSide,
      (∀ post, env.payload ≠ .versePost post) →
      r.route (readdress env toSide) = r.route env
        ∧ serveReceive h arrived (readdress env toSide)
          = serveReceive h arrived env)
    -- a message starts a handler on the verse it is routed to only,
    ∧ (∀ n n' session env,
      Reachable (verseNodeStep crypto openPost) VerseNode.init n →
      verseNodeStep crypto openPost n (.receive session env) = some n' →
      n' = n ∨ ∃ r verse w conn peer, n.sessions session = some r
        ∧ RoutedTo r env verse ∧ n.verses verse = some w
        ∧ n' = n.setVerse verse { w with
          sessions := w.sessions.insert conn
            ⟨peer, serveReceive w.host w.log.length env⟩ })
    -- and the handler acts only as far as the message names this verse.
    ∧ (∀ n verse w conn peer io pc t,
      Reachable (verseNodeStep crypto openPost) VerseNode.init n →
      n.verses verse = some w → w.sessions conn = some ⟨peer, pc⟩ →
      serveTick crypto openPost w.host peer conn io pc = some t →
      Acted w.host t → ActsFor crypto verse w.host pc) := by
  refine ⟨fun sent clock e env h => serveDirect_isFor h,
    fun sent clock e env toSide =>
      serveDirect_readdressed sent clock e env toSide,
    fun sent followUp e env toSide =>
      serveStorage_readdressed sent followUp e env toSide,
    fun r h arrived env toSide hpost => ⟨route_readdressed r toSide hpost,
      serveReceive_readdressed h arrived toSide hpost⟩, ?_, ?_⟩
  · intro n n' session env _ hstep
    rcases receive_cases hstep with hsame |
      ⟨r, verse, w, conn, peer, hr, hverse, hw, -, hn'⟩
    · exact Or.inl hsame
    · exact Or.inr ⟨r, verse, w, conn, peer, hr, route_routedTo hverse, hw,
        hn'⟩
  · intro n verse w conn peer io pc t hn hw hs ht hacted
    have hplaced := placed_of_reachable hn hw
    exact serveTick_actsFor ht hacted hplaced.contract (hplaced.sessions hs)

/-- The endpoint of a side without contacts or objects. -/
def bareEndpoint : Endpoint where
  side := Side.fresh ⟨Bytes.fill _ 1, Bytes.fill _ 2⟩ none 0
    ⟨Tables.empty, []⟩
  store := .empty
  provenance := .empty
  sent := []
  surfaced := []

/-- A message of the side `[3; 32]`. -/
def fromThird {P : Type} (messageType : MessageType) (toSide : Address)
    (payload : P) : Envelope P where
  messageType := messageType
  fromSide := Bytes.fill _ 3
  toSide := some toSide
  timestamp := 0
  nonce := Bytes.fill _ 0
  payload := payload

/-- The endpoint after that side stored an object there. -/
def storedEndpoint : Endpoint :=
  bareEndpoint.serveStorage Crypto.refusing true (some ⟨Bytes.fill _ 0, [], true⟩)
    (fromThird .storageOffer (Bytes.fill _ 2)
      (.storageOffer (Bytes.fill _ 0)))

/-- A delta for the hosted side, applied under whatever `to`. -/
theorem payload_decides_addressee_delta :
    IsFor (Bytes.fill _ 2) (fromThird .stateDelta (Bytes.fill _ 9)
      (.stateDelta ⟨Bytes.fill _ 2, [.retiredObserved (Bytes.fill _ 4)], 0⟩))
    := by
  refine (payload_decides_addressee Crypto.refusing fun _ _ => none).1 true
    (fun _ => 0) bareEndpoint _ fun h => ?_
  have hseen := congrArg
    (fun e : Endpoint => e.side.retiredSidesSeen (Bytes.fill _ 4)) h
  exact Option.some_ne_none () hseen

/-- The author's retraction, addressed to another node and passed on by it,
drops the author as a publisher here. -/
theorem forwarded_retract_acts :
    ∃ env : Envelope StoragePayload,
      env.toSide ≠ some storedEndpoint.side.address
      ∧ storedEndpoint.provenance (Bytes.fill _ 0) ≠ none
      ∧ (storedEndpoint.serveStorage Crypto.refusing true none env).provenance
        (Bytes.fill _ 0) = none := by
  refine ⟨fromThird .storageRetract (Bytes.fill _ 9)
    (.storageRetract (Bytes.fill _ 0)), by decide, by decide, by decide⟩

end Sidevers.Proofs
