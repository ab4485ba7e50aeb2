/-
A Storage connection that nothing comes between (`Net.StorageNode`) does with
an envelope what `Endpoint.serveStorage` does with it.
-/
import Sidevers.Net.StorageNode

namespace Sidevers.Proofs

open Sidevers.Core
open Sidevers.Lib
open Sidevers.Net

variable {crypto : Crypto} {w w' : StorageNode}

-- =================================================================== runs

/-- The connection's steps lead to such a state. -/
def Leads (crypto : Crypto) (w : StorageNode) (P : StorageNode → Prop) :
    Prop :=
  ∃ acts w', run (storageStep crypto) w acts = some w' ∧ P w'

/-- No step is needed. -/
theorem leads_here {P : StorageNode → Prop} (h : P w) : Leads crypto w P :=
  ⟨[], w, rfl, h⟩

/-- One step, and on from there. -/
theorem leads_step {P : StorageNode → Prop} {a : StorageAction}
    (hstep : storageStep crypto w a = some w') (h : Leads crypto w' P) :
    Leads crypto w P := by
  obtain ⟨acts, last, hrun, hP⟩ := h
  refine ⟨a :: acts, last, ?_, hP⟩
  rw [run_cons, hstep]
  exact hrun

-- ============================================================== the steps

/-- The node has the endpoint's store and table, and these tasks. -/
structure Mirrors (e : Endpoint) (tasks : Table Nat StorageTask)
    (w : StorageNode) : Prop where
  store : w.store = e.store
  provenance : w.provenance = e.provenance
  tasks : w.tasks = tasks

/-- An answer is put on the wire or lost; the store is not touched. -/
theorem reply_store (e : Endpoint) (sent : Bool) (peer : Address)
    (r : Reply) : (e.reply sent peer r).store = e.store := by
  cases sent <;> rfl

/-- Nor is the table of publishers. -/
theorem reply_provenance (e : Endpoint) (sent : Bool) (peer : Address)
    (r : Reply) : (e.reply sent peer r).provenance = e.provenance := by
  cases sent <;> rfl

section steps

variable {conn : Nat} {offer : StorageOffer}

/-- The want could not be sent: nothing more is done with the offer, and nothing
is noted. -/
theorem sendWant_unsent {alreadyHave : Bool}
    (htask : w.tasks conn = some (.asked offer alreadyHave)) :
    storageStep crypto w (.sendWant conn false) = some (w.finish conn) := by
  simp only [storageStep, htask]
  rfl

/-- The object is there: the answer wants nothing, and no publisher is noted. -/
theorem sendWant_had (htask : w.tasks conn = some (.asked offer true)) :
    storageStep crypto w (.sendWant conn true)
      = some ((w.record (.answered offer false)).finish conn) := by
  simp only [storageStep, htask]
  rfl

/-- It is not there: the loop waits for the object on the same stream. -/
theorem sendWant_wanted (htask : w.tasks conn = some (.asked offer false)) :
    storageStep crypto w (.sendWant conn true)
      = some ((w.record (.answered offer true)).goOn conn (.wanted offer)) := by
  simp only [storageStep, htask]
  rfl

/-- No STORAGE_HAVE came. -/
theorem storageHave_none (htask : w.tasks conn = some (.wanted offer)) :
    storageStep crypto w (.storageHave conn none true)
      = some ((w.record (.failed offer)).finish conn) := by
  simp only [storageStep, htask]

/-- One came for another object: it is not stored. -/
theorem storageHave_other {payload : StorageHavePayload}
    (htask : w.tasks conn = some (.wanted offer))
    (hne : payload.hash ≠ offer.hash) :
    storageStep crypto w (.storageHave conn (some payload) true)
      = some ((w.record (.failed offer)).finish conn) := by
  simp only [storageStep, htask]
  rw [if_pos (.inl hne)]

/-- The bytes do not have the offered hash. They are stored all the same,
under the hash they have. -/
theorem storageHave_bad {payload : StorageHavePayload}
    (htask : w.tasks conn = some (.wanted offer))
    (heq : payload.hash = offer.hash)
    (hbad : crypto.blake3 payload.bytes ≠ offer.hash) :
    storageStep crypto w (.storageHave conn (some payload) true)
      = some { (w.record (.failed offer)).finish conn with
          store := w.store.put crypto payload.bytes } := by
  simp only [storageStep, htask]
  rw [if_neg (fun h => h.elim (not_not.mpr heq) nofun), if_neg hbad]
  rfl

/-- The bytes are the object's; the publisher is not noted yet. -/
theorem storageHave_good {payload : StorageHavePayload}
    (htask : w.tasks conn = some (.wanted offer))
    (heq : payload.hash = offer.hash)
    (hgood : crypto.blake3 payload.bytes = offer.hash) :
    storageStep crypto w (.storageHave conn (some payload) true)
      = some { w.goOn conn (.ingested offer) with
          store := w.store.put crypto payload.bytes } := by
  simp only [storageStep, htask]
  rw [if_neg (fun h => h.elim (not_not.mpr heq) nofun), if_pos hgood]
  rfl

/-- The publisher is noted under its own lock, after the store's. -/
theorem notePublisher_step (htask : w.tasks conn = some (.ingested offer)) :
    storageStep crypto w (.notePublisher conn)
      = some { w.finish conn with provenance :=
          w.provenance.notePublisher offer.hash offer.peer } := by
  simp only [storageStep, htask]

/-- Others published it as well. -/
theorem dropPublisher_remain {hash : Bytes 32} {peer : Address}
    (htask : w.tasks conn = some (.published hash peer))
    (hremain : (w.provenance.dropPublisher hash peer).1 = true) :
    storageStep crypto w (.dropPublisher conn)
      = some { (w.record (.retracted peer hash)).finish conn with
          provenance := (w.provenance.dropPublisher hash peer).2 } := by
  simp only [storageStep, htask]
  rw [if_pos hremain]
  rfl

/-- It was the last publisher: the object is to be unpinned. -/
theorem dropPublisher_empty {hash : Bytes 32} {peer : Address}
    (htask : w.tasks conn = some (.published hash peer))
    (hempty : (w.provenance.dropPublisher hash peer).1 = false) :
    storageStep crypto w (.dropPublisher conn)
      = some { (w.record (.retracted peer hash)).goOn conn (.emptied hash) with
          provenance := (w.provenance.dropPublisher hash peer).2 } := by
  simp only [storageStep, htask]
  rw [if_neg (Bool.eq_false_iff.mp hempty)]
  rfl

/-- The object is in the store: its pin goes. -/
theorem unpin_there {hash : Bytes 32}
    (htask : w.tasks conn = some (.emptied hash))
    (hhas : (w.store hash).isSome = true) :
    storageStep crypto w (.unpin conn true)
      = some { (w.record (.unpinned hash)).finish conn with
          store := w.store.unpin hash } := by
  simp only [storageStep, htask, hhas]
  rfl

/-- The object is not in the store any more. -/
theorem unpin_absent {hash : Bytes 32}
    (htask : w.tasks conn = some (.emptied hash))
    (hnone : (w.store hash).isSome = false) :
    storageStep crypto w (.unpin conn true) = some (w.finish conn) := by
  simp only [storageStep, htask, hnone]
  rfl

end steps

-- =========================================================== the envelopes

/-- A STORAGE_OFFER and what follows it. -/
theorem leads_offer (sent : Bool) (followUp : Option StorageHavePayload)
    (e : Endpoint) (env : Envelope StoragePayload) {conn : Nat}
    {hash : Bytes 32} (henv : env.payload = .storageOffer hash)
    (hidle : w.tasks conn = none) (hstore : w.store = e.store)
    (hprovenance : w.provenance = e.provenance) :
    Leads crypto w
      (Mirrors (e.serveStorage crypto sent followUp env) w.tasks) := by
  -- the connection's task is written once or twice and removed in the end
  have hself : ∀ task : StorageTask,
      w.tasks.insert conn task conn = some task := fun task =>
    Table.insert_self w.tasks conn task
  have hone : ∀ task, (w.tasks.insert conn task).erase conn = w.tasks :=
    fun _ => (Table.erase_insert ..).trans (Table.erase_eq_self hidle)
  have htwo : ∀ task next,
      ((w.tasks.insert conn task).insert conn next).erase conn = w.tasks :=
    fun _ _ => (Table.erase_insert ..).trans (hone _)
  have hasked : storageStep crypto w (.storageOffer conn env.fromSide hash true)
      = some { w.goOn conn (.asked ⟨w.offers, env.fromSide, hash⟩
          (e.store hash).isSome) with offers := w.offers + 1 } := by
    simp only [storageStep, hidle, hstore, Bool.true_and]
  refine leads_step hasked ?_
  cases sent with
  | false =>
      -- without the want the peer sends no object
      have hserve : e.serveStorage crypto false followUp env = e := by
        simp only [Endpoint.serveStorage, henv]
        rfl
      rw [hserve]
      exact leads_step (sendWant_unsent (hself _))
        (leads_here ⟨hstore, hprovenance, hone _⟩)
  | true =>
      cases hhas : (e.store hash).isSome with
      | true =>
          have hserve : e.serveStorage crypto true followUp env
              = e.reply true env.fromSide (.storageWant hash false) := by
            simp only [Endpoint.serveStorage, henv, hhas]
            rfl
          rw [hserve]
          exact leads_step (sendWant_had (hself _))
            (leads_here ⟨hstore, hprovenance, hone _⟩)
      | false =>
          refine leads_step (sendWant_wanted (hself _)) ?_
          cases followUp with
          | none =>
              have hserve : e.serveStorage crypto true none env
                  = e.reply true env.fromSide (.storageWant hash true) := by
                simp only [Endpoint.serveStorage, henv, hhas]
                rfl
              rw [hserve]
              exact leads_step (storageHave_none (Table.insert_self ..))
                (leads_here ⟨hstore, hprovenance, htwo _ _⟩)
          | some payload =>
              have hserve : e.serveStorage crypto true (some payload) env
                  = if payload.hash ≠ hash then
                      e.reply true env.fromSide (.storageWant hash true)
                    else if crypto.blake3 payload.bytes = hash then
                      { e.reply true env.fromSide (.storageWant hash true) with
                        store := e.store.put crypto payload.bytes
                        provenance :=
                          e.provenance.notePublisher hash env.fromSide }
                    else
                      { e.reply true env.fromSide (.storageWant hash true) with
                        store := e.store.put crypto payload.bytes } := by
                simp only [Endpoint.serveStorage, henv, hhas]
                rfl
              rw [hserve]
              by_cases heq : payload.hash = hash
              · rw [if_neg (not_not.mpr heq)]
                by_cases hgood : crypto.blake3 payload.bytes = hash
                · rw [if_pos hgood]
                  refine leads_step
                    (storageHave_good (Table.insert_self ..) heq hgood) ?_
                  refine leads_step (notePublisher_step (Table.insert_self ..))
                    (leads_here ⟨?_, ?_, ?_⟩)
                  · exact congrArg (ObjectStore.put crypto · _) hstore
                  · exact congrArg
                      (PublisherTable.notePublisher · hash env.fromSide)
                      hprovenance
                  · exact (Table.erase_insert ..).trans (htwo _ _)
                · rw [if_neg hgood]
                  refine leads_step
                    (storageHave_bad (Table.insert_self ..) heq hgood)
                    (leads_here ⟨?_, hprovenance, htwo _ _⟩)
                  exact congrArg (ObjectStore.put crypto · _) hstore
              · rw [if_pos heq]
                exact leads_step
                  (storageHave_other (Table.insert_self ..) heq)
                  (leads_here ⟨hstore, hprovenance, htwo _ _⟩)

/-- A STORAGE_RETRACT. -/
theorem leads_retract (sent : Bool) (followUp : Option StorageHavePayload)
    (e : Endpoint) (env : Envelope StoragePayload) {conn : Nat}
    {hash : Bytes 32} (henv : env.payload = .storageRetract hash)
    (hidle : w.tasks conn = none) (hstore : w.store = e.store)
    (hprovenance : w.provenance = e.provenance) :
    Leads crypto w
      (Mirrors (e.serveStorage crypto sent followUp env) w.tasks) := by
  by_cases hlisted : e.provenance.hasPublisher hash env.fromSide
  case neg =>
    -- who never published it is not listened to
    have hserve : e.serveStorage crypto sent followUp env = e := by
      simp only [Endpoint.serveStorage, henv]
      rw [if_pos (by simpa using hlisted)]
    have hignored : storageStep crypto w
        (.storageRetract conn env.fromSide hash)
        = some (w.record (.retracted env.fromSide hash)) := by
      simp only [storageStep, hidle, hprovenance]
      rw [if_neg hlisted]
    rw [hserve]
    exact leads_step hignored (leads_here ⟨hstore, hprovenance, rfl⟩)
  case pos =>
    have hfound : storageStep crypto w
        (.storageRetract conn env.fromSide hash)
        = some (w.goOn conn (.published hash env.fromSide)) := by
      simp only [storageStep, hidle, hprovenance]
      rw [if_pos hlisted]
    refine leads_step hfound ?_
    have hone : ∀ task, (w.tasks.insert conn task).erase conn = w.tasks :=
      fun _ => (Table.erase_insert ..).trans (Table.erase_eq_self hidle)
    have htwo : ∀ task next,
        ((w.tasks.insert conn task).insert conn next).erase conn = w.tasks :=
      fun _ _ => (Table.erase_insert ..).trans (hone _)
    have hdrop := congrArg
      (PublisherTable.dropPublisher · hash env.fromSide) hprovenance
    cases hremain :
        (e.provenance.dropPublisher hash env.fromSide).1 with
    | true =>
        have hserve : e.serveStorage crypto sent followUp env
            = { e with provenance :=
                (e.provenance.dropPublisher hash env.fromSide).2 } := by
          simp only [Endpoint.serveStorage, henv]
          rw [if_neg (by simpa using hlisted), if_pos hremain]
        rw [hserve]
        refine leads_step (dropPublisher_remain (Table.insert_self ..) ?_)
          (leads_here ⟨hstore, congrArg Prod.snd hdrop, hone _⟩)
        exact (congrArg Prod.fst hdrop).trans hremain
    | false =>
        refine leads_step (dropPublisher_empty (Table.insert_self ..) ?_) ?_
        · exact (congrArg Prod.fst hdrop).trans hremain
        cases hhas : (e.store hash).isSome with
        | true =>
            have hserve : e.serveStorage crypto sent followUp env
                = { e with
                    provenance :=
                      (e.provenance.dropPublisher hash env.fromSide).2
                    store := e.store.unpin hash } := by
              simp only [Endpoint.serveStorage, henv]
              rw [if_neg (by simpa using hlisted),
                if_neg (by simpa using hremain), if_pos hhas]
            rw [hserve]
            refine leads_step (unpin_there (Table.insert_self ..) ?_)
              (leads_here ⟨?_, congrArg Prod.snd hdrop, htwo _ _⟩)
            · exact (congrArg (fun s : ObjectStore => (s hash).isSome)
                hstore).trans hhas
            · exact congrArg (ObjectStore.unpin · hash) hstore
        | false =>
            have hserve : e.serveStorage crypto sent followUp env
                = { e with provenance :=
                    (e.provenance.dropPublisher hash env.fromSide).2 } := by
              simp only [Endpoint.serveStorage, henv]
              rw [if_neg (by simpa using hlisted),
                if_neg (by simpa using hremain), if_neg (by simpa using hhas)]
            rw [hserve]
            refine leads_step (unpin_absent (Table.insert_self ..) ?_)
              (leads_here ⟨hstore, congrArg Prod.snd hdrop, htwo _ _⟩)
            exact (congrArg (fun s : ObjectStore => (s hash).isSome)
              hstore).trans hhas

/-- Undisturbed, a connection does with an envelope what `serveStorage` says:
some of its steps lead there, and it is idle again. -/
theorem serveStorage_undisturbed (sent : Bool)
    (followUp : Option StorageHavePayload) (e : Endpoint)
    (env : Envelope StoragePayload) {conn : Nat}
    (hidle : w.tasks conn = none) (hstore : w.store = e.store)
    (hprovenance : w.provenance = e.provenance) :
    Leads crypto w
      (Mirrors (e.serveStorage crypto sent followUp env) w.tasks) := by
  cases henv : env.payload with
  | storageOffer hash =>
      exact leads_offer sent followUp e env henv hidle hstore hprovenance
  | storageRetract hash =>
      exact leads_retract sent followUp e env henv hidle hstore hprovenance
  | storageGet req =>
      refine leads_here ⟨?_, ?_, rfl⟩
      · simp only [Endpoint.serveStorage, henv]
        exact hstore.trans (reply_store ..).symm
      · simp only [Endpoint.serveStorage, henv]
        exact hprovenance.trans (reply_provenance ..).symm
  | other =>
      have hserve : e.serveStorage crypto sent followUp env = e := by
        simp only [Endpoint.serveStorage, henv]
      rw [hserve]
      exact leads_here ⟨hstore, hprovenance, rfl⟩

end Sidevers.Proofs
