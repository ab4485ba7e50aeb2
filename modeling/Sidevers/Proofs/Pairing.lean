/-
A pairing nonce is good for one bundle, for ninety seconds, and for the device
that asked.

The invariant follows a nonce through the node: a call that is about to insert
it, the side's pending pairings, a handler that has taken it. Each of them has
it from a generation, each sealing uses one up, and no step makes two of one
(`PairingInv.budget`). What a handler knows of its request it has from
`from_wire_bytes`, under one signature (`Requested`). The times are in whole
seconds on both sides, so that a difference below ninety is less than ninety
seconds.
-/
import Sidevers.Lib.Tasks
import Sidevers.Net.Pairing
import Sidevers.Proofs.SignedForms

namespace Sidevers.Proofs

open Sidevers.Core
open Sidevers.Lib
open Sidevers.Net

variable {crypto : Crypto} {sealTo : Seal crypto}

-- ======================================================= the statement

/-- A nonce is generated for a side. -/
def isGeneration (side : Address) (nonce : Bytes 16) : PairingEvent → Bool
  | .generated side' nonce' _ => decide (side' = side ∧ nonce' = nonce)
  | _ => false

/-- A bundle is sealed for it. -/
def isSealing (side : Address) (nonce : Bytes pairingNonceLen) :
    PairingEvent → Bool
  | .sealed _ bundle => decide (bundle.side = side ∧ bundle.nonce = nonce)
  | _ => false

/-- How often a nonce was generated for a side. -/
def generations (side : Address) (nonce : Bytes 16) (log : List PairingEvent) :
    Nat := log.countP (isGeneration side nonce)

/-- How many bundles were sealed for it. -/
def sealings (side : Address) (nonce : Bytes 16) (log : List PairingEvent) :
    Nat := log.countP (isSealing side nonce)

/-- A request that names its side and nonce, and verifies under the device
key it carries, came to that side's endpoint. -/
def Requested (crypto : Crypto) (log : List PairingEvent)
    (req : SignedPairingRequest) (clock : Nat) : Prop :=
  ∃ payload, .arrived req.side payload clock ∈ log
    ∧ SignedPairingRequest.fromWireBytes crypto payload = .ok req
    ∧ crypto.verify req.devicePubkey (crypto.blake3 req.encodeUnsigned)
        req.signature = .ok ()

/-- And its nonce was generated less than ninety seconds before. -/
def AskedInTime (crypto : Crypto) (log : List PairingEvent)
    (req : SignedPairingRequest) : Prop :=
  ∃ arrivedAt generatedAt, Requested crypto log req arrivedAt
    ∧ .generated req.side req.nonce generatedAt ∈ log
    ∧ arrivedAt < generatedAt + 90 * nanos

-- ======================================================= the invariant

/-- A nonce that a call or a side holds, and the second it is held from. -/
def Generated (log : List PairingEvent) (clock : Nat) (side : Address)
    (nonce : Bytes 16) (issuedAt : UInt64) : Prop :=
  ∃ t ≤ clock, .generated side nonce t ∈ log ∧ issuedAt = unixSeconds t

/-- What a task has behind it. -/
def TaskOk (log : List PairingEvent) (clock : Nat) :
    PairingTask crypto → Prop
  | .insert side nonce issuedAt => Generated log clock side nonce issuedAt
  | .request sideKey payload =>
      ∃ t ≤ clock, .arrived sideKey.publicBytes payload t ∈ log
  | .take sideKey req now => req.side = sideKey.publicBytes
      ∧ ∃ t t', t ≤ t' ∧ t' ≤ clock ∧ Requested crypto log req t
        ∧ now = unixSeconds t'
  | .bundle sideKey req => req.side = sideKey.publicBytes
      ∧ AskedInTime crypto log req

/-- Does the task have this nonce to itself? -/
def holdsNonce (side : Address) (nonce : Bytes 16) :
    PairingTask crypto → Bool
  | .insert side' nonce' _ => decide (side' = side ∧ nonce' = nonce)
  | .bundle _ req => decide (req.side = side ∧ req.nonce = nonce)
  | _ => false

/-- Is it pending at its side? -/
def pendingCount (side : Address) (nonce : Bytes 16)
    (sides : Address → Side) : Nat :=
  if ((sides side).pendingPairings nonce).isSome then 1 else 0

/-- What holds of a node in every state. -/
structure PairingInv (w : PairingNode crypto) : Prop where
  fits : w.clock / nanos < UInt64.size
  tasks : ∀ task ∈ w.tasks, TaskOk w.log w.clock task
  pending : ∀ side nonce p, (w.sides side).pendingPairings nonce = some p →
    Generated w.log w.clock side nonce p.issuedAt
  sealed : ∀ before recipient bundle after,
    w.log = before ++ .sealed recipient bundle :: after →
      ∃ req, AskedInTime crypto before req ∧ req.side = bundle.side
        ∧ req.nonce = bundle.nonce
        ∧ req.devicePubkey = bundle.recipientDevice
        ∧ req.deviceX25519Pubkey = recipient
  budget : ∀ side nonce, sealings side nonce w.log
    + w.tasks.countP (holdsNonce side nonce)
    + pendingCount side nonce w.sides ≤ generations side nonce w.log

theorem pairingInv_init {clock : Nat} (hclock : clock / nanos < UInt64.size)
    (sides : Address → Side) :
    PairingInv (.init clock sides : PairingNode crypto) where
  fits := hclock
  tasks := fun task h => absurd h List.not_mem_nil
  pending := fun side nonce p h => by cases h
  sealed := fun before recipient bundle after h => by
    cases before <;> cases h
  budget := fun side nonce => Nat.le_refl _

-- ============================================================ time

theorem unixSeconds_toNat {t : Nat} (h : t / nanos < UInt64.size) :
    (unixSeconds t).toNat = t / nanos := UInt64.toNat_ofNat_of_lt' h

/-- Within ninety seconds of the code's clock, and of the time itself. -/
theorem lt_of_pairing_live {arrivedAt readAt issuedAt : Nat}
    (hle : arrivedAt ≤ readAt) (hread : readAt / nanos < UInt64.size)
    (hissued : issuedAt / nanos < UInt64.size)
    (hlive : saturatingSub (unixSeconds readAt) (unixSeconds issuedAt)
      < pairingTtlSecs) : arrivedAt < issuedAt + 90 * nanos := by
  unfold saturatingSub at hlive
  have hseconds : readAt / nanos < issuedAt / nanos + 90 := by
    split at hlive
    case isTrue hlt =>
      rw [UInt64.lt_iff_toNat_lt, unixSeconds_toNat hread,
        unixSeconds_toNat hissued] at hlt
      omega
    case isFalse hge =>
      rw [UInt64.lt_iff_toNat_lt, unixSeconds_toNat hread,
        unixSeconds_toNat hissued, Nat.not_lt] at hge
      have hle : unixSeconds issuedAt ≤ unixSeconds readAt := by
        rw [UInt64.le_iff_toNat_le, unixSeconds_toNat hread,
          unixSeconds_toNat hissued]
        exact hge
      rw [UInt64.lt_iff_toNat_lt, UInt64.toNat_sub_of_le _ _ hle,
        unixSeconds_toNat hread, unixSeconds_toNat hissued] at hlive
      have hninety : pairingTtlSecs.toNat = 90 := rfl
      omega
  unfold nanos at *
  omega

-- ============================================================ framing

section frames

variable {log log' : List PairingEvent} {clock clock' : Nat}

theorem Requested.mono {req : SignedPairingRequest} {t : Nat}
    (hlog : log ⊆ log') (h : Requested crypto log req t) :
    Requested crypto log' req t := by
  obtain ⟨payload, harrived, hread⟩ := h
  exact ⟨payload, hlog harrived, hread⟩

theorem AskedInTime.mono {req : SignedPairingRequest} (hlog : log ⊆ log')
    (h : AskedInTime crypto log req) : AskedInTime crypto log' req := by
  obtain ⟨t, g, hreq, hgen, hlt⟩ := h
  exact ⟨t, g, hreq.mono hlog, hlog hgen, hlt⟩

theorem Generated.mono {side : Address} {nonce : Bytes 16}
    {issuedAt : UInt64} (hlog : log ⊆ log') (hclock : clock ≤ clock')
    (h : Generated log clock side nonce issuedAt) :
    Generated log' clock' side nonce issuedAt := by
  obtain ⟨t, ht, hgen, hsec⟩ := h
  exact ⟨t, ht.trans hclock, hlog hgen, hsec⟩

/-- What a task has behind it stays behind it. -/
theorem TaskOk.mono {task : PairingTask crypto} (hlog : log ⊆ log')
    (hclock : clock ≤ clock') (h : TaskOk log clock task) :
    TaskOk log' clock' task := by
  cases task with
  | insert side nonce issuedAt => exact Generated.mono hlog hclock h
  | request sideKey payload =>
      obtain ⟨t, ht, harrived⟩ := h
      exact ⟨t, ht.trans hclock, hlog harrived⟩
  | take sideKey req now =>
      obtain ⟨hside, t, t', htt', ht', hreq, hnow⟩ := h
      exact ⟨hside, t, t', htt', ht'.trans hclock, hreq.mono hlog, hnow⟩
  | bundle sideKey req => exact ⟨h.1, h.2.mono hlog⟩

end frames

theorem generations_concat (side : Address) (nonce : Bytes 16)
    (log : List PairingEvent) (event : PairingEvent) :
    generations side nonce (log ++ [event]) = generations side nonce log
      + if isGeneration side nonce event then 1 else 0 := by
  simp only [generations, List.countP_append, List.countP_singleton]

theorem sealings_concat (side : Address) (nonce : Bytes 16)
    (log : List PairingEvent) (event : PairingEvent) :
    sealings side nonce (log ++ [event]) = sealings side nonce log
      + if isSealing side nonce event then 1 else 0 := by
  simp only [sealings, List.countP_append, List.countP_singleton]

/-- What holds where each bundle was sealed, one event later. -/
theorem sealed_concat {Q : List PairingEvent → Bytes 32 → SignedStateBundle →
    Prop} {log : List PairingEvent} {event : PairingEvent}
    (hold : ∀ before recipient bundle after,
      log = before ++ .sealed recipient bundle :: after →
        Q before recipient bundle)
    (hnew : ∀ recipient bundle, event = .sealed recipient bundle →
      Q log recipient bundle) :
    ∀ before recipient bundle after,
      log ++ [event] = before ++ .sealed recipient bundle :: after →
        Q before recipient bundle := by
  intro before recipient bundle after heq
  rcases List.eq_nil_or_concat after with rfl | ⟨after', last, rfl⟩
  · obtain ⟨rfl, hevent⟩ := List.append_inj' heq rfl
    exact hnew recipient bundle (List.cons.inj hevent).1
  · rw [List.concat_eq_append, ← List.cons_append, ← List.append_assoc] at heq
    exact hold before recipient bundle after'
      (List.append_inj' heq rfl).1

variable {w : PairingNode crypto}

/-- Tasks are taken up in any order. -/
theorem PairingInv.of_perm (hinv : PairingInv w)
    {tasks : List (PairingTask crypto)} (hperm : w.tasks.Perm tasks) :
    PairingInv { w with tasks := tasks } where
  fits := hinv.fits
  tasks := fun task h => hinv.tasks task (hperm.mem_iff.mpr h)
  pending := hinv.pending
  sealed := hinv.sealed
  budget := fun side nonce => by
    have := hinv.budget side nonce
    rwa [hperm.countP_eq] at this

/-- A task gives up, and its nonce with it. -/
theorem PairingInv.drop {task : PairingTask crypto}
    {rest : List (PairingTask crypto)}
    (hinv : PairingInv { w with tasks := task :: rest }) :
    PairingInv { w with tasks := rest } where
  fits := hinv.fits
  tasks := fun task h => hinv.tasks task (List.mem_cons_of_mem _ h)
  pending := hinv.pending
  sealed := hinv.sealed
  budget := fun side nonce => by
    have := hinv.budget side nonce
    dsimp only at this ⊢
    rw [List.countP_cons] at this
    omega

/-- A handler goes on without holding a nonce yet. -/
theorem PairingInv.spawn (hinv : PairingInv w) {task : PairingTask crypto}
    (htask : TaskOk w.log w.clock task)
    (hfree : ∀ side nonce, holdsNonce side nonce task = false) :
    PairingInv (w.spawn task) where
  fits := hinv.fits
  tasks := by
    intro task' h
    rcases List.mem_cons.mp h with rfl | h
    · exact htask
    · exact hinv.tasks task' h
  pending := hinv.pending
  sealed := hinv.sealed
  budget := fun side nonce => by
    have := hinv.budget side nonce
    simp only [PairingNode.spawn, List.countP_cons, hfree]
    exact this

-- ============================================================ the steps

/-- Time goes by. -/
theorem PairingInv.advance (hinv : PairingInv w) {nanoseconds : Nat}
    (hfits : (w.clock + nanoseconds) / nanos < UInt64.size) :
    PairingInv { w with clock := w.clock + nanoseconds } where
  fits := hfits
  tasks := fun task h => (hinv.tasks task h).mono (List.Subset.refl _)
    (Nat.le_add_right ..)
  pending := fun side nonce p h => (hinv.pending side nonce p h).mono
    (List.Subset.refl _) (Nat.le_add_right ..)
  sealed := hinv.sealed
  budget := hinv.budget

/-- A QR is generated: a nonce more to use up, and a call that has it. -/
theorem PairingInv.generate (hinv : PairingInv w) (side : Address)
    (nonce : Bytes 16) :
    PairingInv ((w.record (.generated side nonce w.clock)).spawn
      (.insert side nonce (unixSeconds w.clock))) where
  fits := hinv.fits
  tasks := by
    intro task h
    rcases List.mem_cons.mp h with rfl | h
    · exact ⟨w.clock, Nat.le_refl _, by simp [PairingNode.record,
        PairingNode.spawn], rfl⟩
    · exact (hinv.tasks task h).mono (List.subset_append_left ..)
        (Nat.le_refl _)
  pending := fun side' nonce' p h => (hinv.pending side' nonce' p h).mono
    (List.subset_append_left ..) (Nat.le_refl _)
  sealed := sealed_concat hinv.sealed fun _ _ h => by cases h
  budget := fun side' nonce' => by
    have := hinv.budget side' nonce'
    have hsame : holdsNonce side' nonce' (.insert side nonce
        (unixSeconds w.clock) : PairingTask crypto)
        = isGeneration side' nonce' (.generated side nonce w.clock) := rfl
    simp only [PairingNode.spawn, PairingNode.record, sealings_concat,
      generations_concat, List.countP_cons, isSealing, hsame,
      Bool.false_eq_true, if_false]
    omega

/-- A request arrives. -/
theorem PairingInv.receive (hinv : PairingInv w) (sideKey : Signer crypto)
    (payload : List UInt8) :
    PairingInv ((w.record (.arrived sideKey.publicBytes payload
      w.clock)).spawn (.request sideKey payload)) where
  fits := hinv.fits
  tasks := by
    intro task h
    rcases List.mem_cons.mp h with rfl | h
    · exact ⟨w.clock, Nat.le_refl _, by simp [PairingNode.record,
        PairingNode.spawn]⟩
    · exact (hinv.tasks task h).mono (List.subset_append_left ..)
        (Nat.le_refl _)
  pending := fun side' nonce' p h => (hinv.pending side' nonce' p h).mono
    (List.subset_append_left ..) (Nat.le_refl _)
  sealed := sealed_concat hinv.sealed fun _ _ h => by cases h
  budget := fun side' nonce' => by
    have := hinv.budget side' nonce'
    simp only [PairingNode.spawn, PairingNode.record, sealings_concat,
      generations_concat, List.countP_cons, isSealing, isGeneration,
      holdsNonce, Bool.false_eq_true, if_false]
    omega

/-- The nonces that are pending at a side, once it has changed. -/
theorem pendingCount_setSide (sides : Address → Side) (address : Address)
    (side : Side) (side' : Address) (nonce : Bytes 16) :
    pendingCount side' nonce (Function.update sides address side)
      = if side' = address then
          if (side.pendingPairings nonce).isSome then 1 else 0
        else pendingCount side' nonce sides := by
  unfold pendingCount
  by_cases h : side' = address
  · subst h
    rw [Function.update_self, if_pos rfl]
  · rw [Function.update_of_ne h, if_neg h]

/-- The nonce goes from the call to the side. -/
theorem PairingInv.insert {side : Address} {nonce : Bytes 16}
    {issuedAt : UInt64} {rest : List (PairingTask crypto)}
    (hinv : PairingInv { w with
      tasks := .insert side nonce issuedAt :: rest }) :
    PairingInv (PairingNode.resume { w with tasks := rest }
      (.insert side nonce issuedAt)) where
  fits := hinv.fits
  tasks := fun task h => hinv.tasks task (List.mem_cons_of_mem _ h)
  pending := by
    intro side' nonce' p h
    dsimp only [PairingNode.resume, PairingNode.setSide] at h ⊢
    by_cases hside : side' = side
    · subst hside
      rw [Function.update_self] at h
      rcases (Table.insert_eq_some_iff _).mp h with ⟨rfl, rfl⟩ | ⟨-, hold⟩
      · exact hinv.tasks _ List.mem_cons_self
      · exact hinv.pending _ _ p hold
    · rw [Function.update_of_ne hside] at h
      exact hinv.pending _ _ p h
  sealed := hinv.sealed
  budget := fun side' nonce' => by
    have := hinv.budget side' nonce'
    dsimp only [PairingNode.resume, PairingNode.setSide] at this ⊢
    rw [pendingCount_setSide]
    rw [List.countP_cons, holdsNonce] at this
    by_cases hside : side' = side
    · subst hside
      rw [if_pos rfl]
      by_cases hnonce : nonce' = nonce
      · subst hnonce
        simp only [and_self, decide_true, if_true] at this
        simp only [Side.addPendingPairing, Table.insert_self,
          Option.isSome_some, if_true]
        omega
      · simp only [Side.addPendingPairing, Table.insert_of_ne _ _ hnonce]
        unfold pendingCount at this
        omega
    · rw [if_neg hside]
      omega

theorem fromWireBytes_pairingRequest {b : List UInt8}
    {p : SignedPairingRequest} :
    SignedPairingRequest.fromWireBytes crypto b = .ok p
      ↔ SignedPairingRequest.readAll.value b = .ok p
        ∧ crypto.verify p.devicePubkey (crypto.blake3 p.encodeUnsigned)
          p.signature = .ok ()
        ∧ p.toWireBytes = b :=
  read_verified_canonical

/-- A request is read, and goes on if it is for this side. -/
theorem PairingInv.request {sideKey : Signer crypto} {payload : List UInt8}
    {rest : List (PairingTask crypto)}
    (hinv : PairingInv { w with tasks := .request sideKey payload :: rest }) :
    PairingInv (PairingNode.resume { w with tasks := rest }
      (.request sideKey payload)) := by
  have hrest := hinv.drop
  obtain ⟨t, ht, harrived⟩ := hinv.tasks _ List.mem_cons_self
  cases hread : SignedPairingRequest.fromWireBytes crypto payload with
  | error e =>
      simp only [PairingNode.resume, hread]
      exact hrest
  | ok req =>
      simp only [PairingNode.resume, hread]
      by_cases hside : req.side = sideKey.publicBytes
      · rw [if_neg (not_not_intro hside)]
        refine hrest.spawn ⟨hside, t, w.clock, ht, Nat.le_refl _, ?_, rfl⟩
          fun _ _ => rfl
        exact ⟨payload, hside ▸ harrived, hread,
          (fromWireBytes_pairingRequest.mp hread).2.1⟩
      · rw [if_pos hside]
        exact hrest

/-- What is taken was pending and live. -/
theorem takePendingPairing_fst {side : Side} {nonce : Bytes 16}
    {now : UInt64} {p : PendingPairing}
    (h : (side.takePendingPairing nonce now).1 = some p) :
    side.pendingPairings nonce = some p
      ∧ saturatingSub now p.issuedAt < pairingTtlSecs := by
  obtain ⟨hpending, hlive⟩ := Option.filter_eq_some_iff.mp h
  exact ⟨hpending, of_decide_eq_true hlive⟩

/-- What stays was pending, under another nonce. -/
theorem takePendingPairing_snd {side : Side} {nonce nonce' : Bytes 16}
    {now : UInt64} {p : PendingPairing}
    (h : (side.takePendingPairing nonce now).2.pendingPairings nonce'
      = some p) :
    nonce' ≠ nonce ∧ side.pendingPairings nonce' = some p := by
  dsimp only [Side.takePendingPairing] at h
  obtain ⟨hne, hlive⟩ := (Table.erase_eq_some_iff _).mp h
  exact ⟨hne, (Option.filter_eq_some_iff.mp hlive).1⟩

/-- A sweep at a side uses nothing up. -/
theorem PairingInv.sweep (hinv : PairingInv w) {address : Address}
    {side : Side} (hkept : ∀ nonce p, side.pendingPairings nonce = some p →
      (w.sides address).pendingPairings nonce = some p) :
    PairingInv (w.setSide address side) where
  fits := hinv.fits
  tasks := hinv.tasks
  pending := by
    intro side' nonce p h
    dsimp only [PairingNode.setSide] at h ⊢
    by_cases hside : side' = address
    · subst hside
      rw [Function.update_self] at h
      exact hinv.pending _ _ p (hkept nonce p h)
    · rw [Function.update_of_ne hside] at h
      exact hinv.pending _ _ p h
  sealed := hinv.sealed
  budget := fun side' nonce => by
    have hbudget := hinv.budget side' nonce
    dsimp only [PairingNode.setSide] at hbudget ⊢
    rw [pendingCount_setSide]
    split
    case isTrue hside =>
      subst hside
      split
      case isTrue hsome =>
        obtain ⟨p, hp⟩ := Option.isSome_iff_exists.mp hsome
        have hone : pendingCount side' nonce w.sides = 1 := by
          unfold pendingCount
          rw [hkept nonce p hp]
          rfl
        omega
      case isFalse => omega
    case isFalse => exact hbudget

/-- A live nonce goes from the side to the handler that takes it, an expired
one is dropped. -/
theorem PairingInv.take {sideKey : Signer crypto}
    {req : SignedPairingRequest} {now : UInt64}
    {rest : List (PairingTask crypto)}
    (hinv : PairingInv { w with tasks := .take sideKey req now :: rest }) :
    PairingInv (PairingNode.resume { w with tasks := rest }
      (.take sideKey req now)) := by
  obtain ⟨hside, t, t', htt', ht', hreq, rfl⟩ :=
    hinv.tasks _ List.mem_cons_self
  have hswept : PairingInv (PairingNode.setSide { w with tasks := rest }
      sideKey.publicBytes ((w.sides sideKey.publicBytes).takePendingPairing
        req.nonce (unixSeconds t')).2) :=
    hinv.drop.sweep fun nonce p h => (takePendingPairing_snd h).2
  simp only [PairingNode.resume]
  split
  case isTrue => exact hswept
  case isFalse hsome =>
    rw [Option.isNone_iff_eq_none] at hsome
    obtain ⟨p, hp⟩ := Option.ne_none_iff_exists'.mp hsome
    obtain ⟨hpending, hlive⟩ := takePendingPairing_fst hp
    obtain ⟨g, hg, hgen, hissued⟩ := hinv.pending _ _ p hpending
    have hasked : AskedInTime crypto w.log req := by
      refine ⟨t, g, hreq, hside ▸ hgen, ?_⟩
      have hfits : ∀ s ≤ w.clock, s / nanos < UInt64.size := fun s hs =>
        (Nat.div_le_div_right hs).trans_lt hinv.fits
      rw [hissued] at hlive
      exact lt_of_pairing_live htt' (hfits t' ht') (hfits g hg) hlive
    refine ⟨hswept.fits, ?_, hswept.pending, hswept.sealed, ?_⟩
    · intro task htask
      rcases List.mem_cons.mp htask with rfl | htask
      · exact ⟨hside, hasked⟩
      · exact hswept.tasks task htask
    · intro side' nonce
      have hbefore := hinv.budget side' nonce
      have hafter := hswept.budget side' nonce
      dsimp only [PairingNode.spawn, PairingNode.setSide] at hafter ⊢
      rw [List.countP_cons, holdsNonce]
      by_cases hmine : req.side = side' ∧ req.nonce = nonce
      · -- the handler has the nonce, and the side does not any more
        obtain ⟨rfl, rfl⟩ := hmine
        have hone : pendingCount req.side req.nonce w.sides = 1 := by
          unfold pendingCount
          rw [hside, hpending]
          rfl
        have hnone : pendingCount req.side req.nonce (Function.update w.sides
            sideKey.publicBytes ((w.sides
              sideKey.publicBytes).takePendingPairing req.nonce
                (unixSeconds t')).2) = 0 := by
          rw [pendingCount_setSide, if_pos hside]
          simp [Side.takePendingPairing]
        rw [hnone]
        have htask : holdsNonce req.side req.nonce
            (.take sideKey req (unixSeconds t')) = false := rfl
        dsimp only at hbefore
        rw [List.countP_cons, htask, hone] at hbefore
        simp only [and_self, decide_true, if_true, Bool.false_eq_true,
          if_false] at hbefore ⊢
        omega
      · rw [decide_eq_false hmine]
        exact hafter

/-- A bundle uses up the nonce of the handler that makes it. -/
theorem PairingInv.release {sideKey : Signer crypto}
    {req : SignedPairingRequest} {rest : List (PairingTask crypto)}
    (hinv : PairingInv { w with tasks := .bundle sideKey req :: rest })
    (inner : Option SeededStateBundle)
    (keyNonce : Option (Bytes keyNonceLen)) :
    PairingInv (PairingNode.releaseBundle sealTo { w with tasks := rest }
      sideKey req inner keyNonce) := by
  obtain ⟨hside, hasked⟩ := hinv.tasks _ List.mem_cons_self
  unfold PairingNode.releaseBundle
  split
  case h_2 => exact hinv.drop
  case h_1 inner keyNonce =>
    split
    · exact hinv.drop
    · refine ⟨hinv.fits, ?_, ?_, ?_, ?_⟩
      · exact fun task h => (hinv.tasks task (List.mem_cons_of_mem _ h)).mono
          (List.subset_append_left ..) (Nat.le_refl _)
      · exact fun side nonce p h => (hinv.pending side nonce p h).mono
          (List.subset_append_left ..) (Nat.le_refl _)
      · refine sealed_concat hinv.sealed fun recipient bundle h => ?_
        cases h
        exact ⟨req, hasked, hside, rfl, rfl, rfl⟩
      · intro side nonce
        have hbudget := hinv.budget side nonce
        have hsame : ∀ sealedState, isSealing side nonce (.sealed
            req.deviceX25519Pubkey (.sign sideKey req.devicePubkey req.nonce
              keyNonce sealedState))
            = holdsNonce side nonce (.bundle sideKey req) := by
          intro sealedState
          rw [holdsNonce, hside]
          rfl
        dsimp only [PairingNode.record] at hbudget ⊢
        rw [sealings_concat, generations_concat, hsame]
        rw [List.countP_cons] at hbudget
        simp only [isGeneration, Bool.false_eq_true, if_false]
        omega

theorem pairingInv_step (w : PairingNode crypto)
    (a : PairingAction crypto) (w' : PairingNode crypto)
    (hinv : PairingInv w) (h : pairingStep crypto sealTo w a = some w') :
    PairingInv w' := by
  cases a with
  | advance nanoseconds =>
      simp only [pairingStep, Option.ite_none_right_eq_some,
        Option.some.injEq] at h
      obtain ⟨hfits, rfl⟩ := h
      exact hinv.advance hfits
  | generatePairingQr side nonce =>
      obtain rfl := Option.some.inj h
      exact hinv.generate side nonce
  | receive sideKey payload =>
      obtain rfl := Option.some.inj h
      exact hinv.receive sideKey payload
  | resume i =>
      simp only [pairingStep] at h
      cases htask : w.tasks[i]? with
      | none =>
          rw [htask] at h
          cases h
      | some task =>
          have hsplit := hinv.of_perm (perm_eraseIdx htask)
          rw [htask] at h
          cases task with
          | insert side nonce issuedAt =>
              obtain rfl := Option.some.inj h
              exact hsplit.insert
          | request sideKey payload =>
              obtain rfl := Option.some.inj h
              exact hsplit.request
          | take sideKey req now =>
              obtain rfl := Option.some.inj h
              exact hsplit.take
          | bundle sideKey req => cases h
  | bundle i inner keyNonce =>
      simp only [pairingStep] at h
      split at h
      case h_1 sideKey req htask =>
        obtain rfl := Option.some.inj h
        exact (hinv.of_perm (perm_eraseIdx htask)).release inner keyNonce
      case h_2 => cases h

-- ========================================================= the theorem

/-- In every run, a nonce is good for as many bundles as it was generated
times, and every bundle was asked for, less than ninety seconds after its
nonce was generated, by a request that names its side and nonce, carries both
its keys and verifies under the device's. -/
theorem pairing_releases_once (crypto : Crypto) (sealTo : Seal crypto)
    (sides : Address → Side) (clock : Nat)
    (hclock : clock / nanos < UInt64.size)
    {acts : List (PairingAction crypto)} {w : PairingNode crypto}
    (hrun : run (pairingStep crypto sealTo) (.init clock sides) acts = some w) :
    (∀ side nonce, sealings side nonce w.log ≤ generations side nonce w.log)
    ∧ ∀ before recipient bundle after,
      w.log = before ++ .sealed recipient bundle :: after →
        ∃ req, AskedInTime crypto before req ∧ req.side = bundle.side
          ∧ req.nonce = bundle.nonce
          ∧ req.devicePubkey = bundle.recipientDevice
          ∧ req.deviceX25519Pubkey = recipient := by
  have hinv : PairingInv w := Reachable.induct
    (pairingInv_init hclock sides) pairingInv_step ⟨acts, hrun⟩
  refine ⟨fun side nonce => ?_, hinv.sealed⟩
  have := hinv.budget side nonce
  omega

/-- What device 2 sends after it has scanned side 1's QR. -/
def scannedRequest : SignedPairingRequest :=
  .sign (Bytes.fill _ 1) (Signer.legible (Bytes.fill _ 2)) (Bytes.fill _ 3)
    (Bytes.fill _ 4)

/-- The request comes twice within ninety seconds, and the second handler is
the first at the lock. -/
def scannedRun : List (PairingAction Crypto.legible) :=
  let ask : PairingAction Crypto.legible :=
    .receive (Signer.legible (Bytes.fill _ 1)) scannedRequest.toWireBytes
  let inner : SeededStateBundle :=
    { profileWire := none, lifecycle := "active", coHolders := []
      relationships := [], retiredSides := [], sideSeed := Bytes.fill _ 5
      bundledAt := 89 }
  [.generatePairingQr (Bytes.fill _ 1) (Bytes.fill _ 4), .resume 0,
   .advance (89 * nanos), ask, .resume 0, ask, .resume 0, .resume 0,
   .resume 1, .bundle 0 (some inner) (some (Bytes.fill _ 7))]

/-- The node it comes to. -/
def scannedNode : PairingNode Crypto.legible :=
  .init 0 fun address =>
    Side.fresh ⟨Bytes.fill _ 9, address⟩ none 0 ⟨Tables.empty, []⟩

theorem pairing_releases_once_scanned :
    ∃ w, run (pairingStep Crypto.legible fun _ _ _ _ _ => .ok []) scannedNode
        scannedRun = some w
      ∧ generations (Bytes.fill _ 1) (Bytes.fill _ 4) w.log = 1
      ∧ sealings (Bytes.fill _ 1) (Bytes.fill _ 4) w.log = 1
      ∧ ∀ before recipient bundle after,
        w.log = before ++ .sealed recipient bundle :: after →
          ∃ req, AskedInTime Crypto.legible before req
            ∧ req.devicePubkey = bundle.recipientDevice
            ∧ req.deviceX25519Pubkey = recipient := by
  have hcounts : (run (pairingStep Crypto.legible fun _ _ _ _ _ => .ok [])
      scannedNode scannedRun).map (fun w =>
        (generations (Bytes.fill _ 1) (Bytes.fill _ 4) w.log,
          sealings (Bytes.fill _ 1) (Bytes.fill _ 4) w.log)) = some (1, 1) := by
    decide +kernel
  obtain ⟨w, hrun, hone⟩ := Option.map_eq_some_iff.mp hcounts
  obtain ⟨hgenerated, hsealed⟩ := Prod.mk.inj hone
  refine ⟨w, hrun, hgenerated, hsealed, ?_⟩
  intro before recipient bundle after hlog
  obtain ⟨req, hasked, -, -, hdevice, hrecipient⟩ :=
    (pairing_releases_once Crypto.legible _ _ 0 (by decide) hrun).2 before
      recipient bundle after hlog
  exact ⟨req, hasked, hdevice, hrecipient⟩

end Sidevers.Proofs
