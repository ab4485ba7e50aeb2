/-
Whose offers an unpinned object had (`Net.StorageNode`).

# The rule

An offer stands from its answer until the object fails to come or its peer
retracts. The publisher table is to hold the peers of the standing offers, but
for those whose object is still on its way. It does as long as two things do
not happen:

- an offer of an object that is there already is answered without a word to
  the table, and its peer is not on the list;
- the list of an object runs empty while an offer of it is being answered or
  delivered, so that the peer comes onto the list between the look and the
  unpin, or after it.

`Provenant` says that of one step, `publisher_provenance` draws the
consequence for runs. `present_offer_unpinned` and `late_publisher_unpinned`
are runs where the one or the other happens.
-/
import Mathlib.Data.List.Basic
import Sidevers.Net.StorageNode

namespace Sidevers.Proofs

open Sidevers.Core
open Sidevers.Lib
open Sidevers.Net

-- ============================================================== the table

theorem hasPublisher_iff {t : PublisherTable} {hash : Bytes 32}
    {peer : Address} :
    t.hasPublisher hash peer = true ↔ peer ∈ t.publishers hash := by
  unfold PublisherTable.hasPublisher PublisherTable.publishers
  cases t hash with
  | none => simp
  | some set => simp

theorem publishers_note (t : PublisherTable) (hash other : Bytes 32)
    (side : Address) :
    (t.notePublisher hash side).publishers other
      = if other = hash then insert side (t.publishers other)
        else t.publishers other := by
  unfold PublisherTable.publishers PublisherTable.notePublisher
  rw [Table.insert_apply]
  split
  case isTrue h => rw [h, Option.getD_some]
  case isFalse h => rfl

theorem publishers_drop (t : PublisherTable) (hash other : Bytes 32)
    (side : Address) :
    (t.dropPublisher hash side).2.publishers other
      = if other = hash then (t.publishers other).erase side
        else t.publishers other := by
  unfold PublisherTable.publishers PublisherTable.dropPublisher
  by_cases hother : other = hash
  · subst hother
    rw [if_pos rfl]
    cases hset : t other with
    | none =>
        show (t other).getD ∅ = _
        rw [hset]
        rfl
    | some set =>
        show ((if set.erase side = ∅ then (false, t.erase other)
          else (true, t.insert other (set.erase side))).2 other).getD ∅ = _
        split
        case isTrue hempty =>
          show (t.erase other other).getD ∅ = _
          rw [Table.erase_self]
          exact hempty.symm
        case isFalse =>
          show (t.insert other _ other).getD ∅ = _
          rw [Table.insert_self]
          rfl
  · rw [if_neg hother]
    cases t hash with
    | none => rfl
    | some set =>
        show ((if set.erase side = ∅ then (false, t.erase hash)
          else (true, t.insert hash (set.erase side))).2 other).getD ∅ = _
        split
        case isTrue => exact congrArg (·.getD ∅) (Table.erase_of_ne t hother)
        case isFalse =>
          exact congrArg (·.getD ∅) (Table.insert_of_ne t _ hother)

/-- No other publisher remains. -/
theorem dropPublisher_none {t : PublisherTable} {hash : Bytes 32}
    {side : Address} (h : (t.dropPublisher hash side).1 = false) :
    (t.publishers hash).erase side = ∅ := by
  unfold PublisherTable.dropPublisher at h
  unfold PublisherTable.publishers
  cases hset : t hash with
  | none => rfl
  | some set =>
      rw [hset] at h
      replace h : (if set.erase side = ∅ then (false, _) else (true, _)).1
        = false := h
      split at h
      case isTrue hempty => exact hempty
      case isFalse => cases h

-- ====================================================== offers that stand

/-- What an event does to the offers that stand. -/
def stand (offers : List StorageOffer) : StorageEvent → List StorageOffer
  | .answered offer _ => offers ++ [offer]
  | .failed offer => offers.filter fun o => decide (o ≠ offer)
  | .retracted peer hash =>
      offers.filter fun o => decide (¬ (o.peer = peer ∧ o.hash = hash))
  | .unpinned _ => offers

/-- The offers answered that neither failed nor were retracted since. -/
def standing (events : List StorageEvent) : List StorageOffer :=
  events.foldl stand []

theorem standing_concat (events : List StorageEvent) (e : StorageEvent) :
    standing (events ++ [e]) = stand (standing events) e :=
  List.foldl_concat ..

theorem standing_answered {events : List StorageEvent}
    {offer o : StorageOffer} {want : Bool}
    (h : o ∈ standing (events ++ [.answered offer want])) :
    o ∈ standing events ∨ o = offer := by
  rw [standing_concat] at h
  exact (List.mem_append.mp h).imp id List.mem_singleton.mp

theorem standing_failed {events : List StorageEvent} {offer o : StorageOffer}
    (h : o ∈ standing (events ++ [.failed offer])) :
    o ∈ standing events ∧ o ≠ offer := by
  rw [standing_concat] at h
  exact (List.mem_filter.mp h).imp id of_decide_eq_true

theorem standing_retracted {events : List StorageEvent} {peer : Address}
    {hash : Bytes 32} {o : StorageOffer}
    (h : o ∈ standing (events ++ [.retracted peer hash])) :
    o ∈ standing events ∧ ¬ (o.peer = peer ∧ o.hash = hash) := by
  rw [standing_concat] at h
  exact (List.mem_filter.mp h).imp id of_decide_eq_true

theorem standing_unpinned {events : List StorageEvent} {hash : Bytes 32}
    {o : StorageOffer} (h : o ∈ standing (events ++ [.unpinned hash])) :
    o ∈ standing events := by
  rw [standing_concat] at h
  exact h

theorem foldl_stand_keeps {offer : StorageOffer} {later : List StorageEvent}
    (hfailed : .failed offer ∉ later)
    (hretracted : .retracted offer.peer offer.hash ∉ later)
    {offers : List StorageOffer} (h : offer ∈ offers) :
    offer ∈ later.foldl stand offers := by
  induction later generalizing offers with
  | nil => exact h
  | cons e later ih =>
      obtain ⟨hfailed_head, hfailed⟩ := not_or.mp (mt List.mem_cons.mpr hfailed)
      obtain ⟨hretracted_head, hretracted⟩ :=
        not_or.mp (mt List.mem_cons.mpr hretracted)
      refine ih hfailed hretracted ?_
      cases e with
      | answered other want => exact List.mem_append_left _ h
      | failed other =>
          refine List.mem_filter.mpr ⟨h, decide_eq_true ?_⟩
          rintro rfl
          exact hfailed_head rfl
      | retracted peer hash =>
          refine List.mem_filter.mpr ⟨h, decide_eq_true ?_⟩
          rintro ⟨rfl, rfl⟩
          exact hretracted_head rfl
      | unpinned hash => exact h

/-- An offer stands until it fails or is retracted. -/
theorem mem_standing {earlier later : List StorageEvent}
    {offer : StorageOffer} (want : Bool) (hfailed : .failed offer ∉ later)
    (hretracted : .retracted offer.peer offer.hash ∉ later) :
    offer ∈ standing (earlier ++ .answered offer want :: later) := by
  unfold standing
  rw [List.foldl_append, List.foldl_cons]
  exact foldl_stand_keeps hfailed hretracted
    (List.mem_append_right _ (List.mem_singleton_self _))

/-- No object was unpinned that had an offer standing. -/
def Justified (events : List StorageEvent) : Prop :=
  ∀ before hash after, events = before ++ .unpinned hash :: after →
    ∀ offer ∈ standing before, offer.hash ≠ hash

theorem justified_nil : Justified [] := by
  intro before hash after h
  cases before <;> cases h

theorem Justified.concat {events : List StorageEvent} {e : StorageEvent}
    (h : Justified events)
    (he : ∀ hash, e = .unpinned hash →
      ∀ offer ∈ standing events, offer.hash ≠ hash) :
    Justified (events ++ [e]) := by
  intro before hash after hsplit
  rcases List.eq_nil_or_concat after with rfl | ⟨init, last, rfl⟩
  · obtain ⟨rfl, hlast⟩ := List.append_inj' hsplit rfl
    injection hlast with hlast
    exact he hash hlast
  · rw [List.concat_eq_append, ← List.cons_append, ← List.append_assoc]
      at hsplit
    obtain ⟨hinit, -⟩ := List.append_inj' hsplit rfl
    exact h before hash init hinit

-- ================================================================ one step

variable {crypto : Crypto} {w w' : StorageNode}

/-- The offer that the task may still put on the list. -/
def pending : StorageTask → Option StorageOffer
  | .asked offer false => some offer
  | .wanted offer => some offer
  | .ingested offer => some offer
  | _ => none

/-- The offer answered whose object the task waits for, or has. -/
def delivering : StorageTask → Option StorageOffer
  | .wanted offer => some offer
  | .ingested offer => some offer
  | _ => none

theorem pending_of_delivering {task : StorageTask} {offer : StorageOffer}
    (h : delivering task = some offer) : pending task = some offer := by
  cases task with
  | wanted other => exact h
  | ingested other => exact h
  | _ => cases h

/-- The object that the task has found. -/
def found : StorageTask → Option (Bytes 32)
  | .ingested offer => some offer.hash
  | .published hash _ => some hash
  | .emptied hash => some hash
  | _ => none

/-- Some connection is at the offer. -/
def AtWork (view : StorageTask → Option StorageOffer) (w : StorageNode)
    (offer : StorageOffer) : Prop :=
  ∃ conn task, w.tasks conn = some task ∧ view task = some offer

/-- The offer is being answered or delivered. -/
def OfferInFlight (w : StorageNode) (offer : StorageOffer) : Prop :=
  AtWork pending w offer

/-- The condition on a step: an offer answered without a want is of a peer on
the list; when a retract leaves nobody on the list, no offer of the object is
being answered or delivered; and no lookup of an object fails before the unpin
of it. -/
def Provenant (w : StorageNode) : StorageAction → Prop
  | .storageOffer _ _ hash looked => looked = false →
      ∀ conn, w.tasks conn ≠ some (.emptied hash)
  | .sendWant conn sent => sent = true → ∀ offer,
      w.tasks conn = some (.asked offer true) →
        offer.peer ∈ w.provenance.publishers offer.hash
  | .dropPublisher conn => ∀ hash peer,
      w.tasks conn = some (.published hash peer) →
        (w.provenance.publishers hash).erase peer = ∅ →
          ∀ offer, OfferInFlight w offer → offer.hash ≠ hash
  | _ => True

/-- Objects stay. -/
def Keeps (store store' : ObjectStore) : Prop :=
  ∀ hash, (store hash).isSome → (store' hash).isSome

theorem keeps_refl (store : ObjectStore) : Keeps store store := fun _ h => h

/-- What is put in the place of a row, or added. -/
theorem keeps_insert {store : ObjectStore} {hash : Bytes 32}
    (row : List UInt8 × Bool) : Keeps store (store.insert hash row) := by
  intro other h
  rw [Table.insert_apply]
  split
  case isTrue => rfl
  case isFalse => exact h

theorem keeps_put (crypto : Crypto) (store : ObjectStore)
    (bytes : List UInt8) : Keeps store (store.put crypto bytes) := by
  unfold ObjectStore.put Table.insertOrIgnore
  split
  case h_1 => exact keeps_insert _
  case h_2 => exact keeps_refl store

theorem put_isSome (crypto : Crypto) (store : ObjectStore)
    (bytes : List UInt8) :
    (store.put crypto bytes (crypto.blake3 bytes)).isSome :=
  Option.isSome_iff_ne_none.mpr
    (Table.insertOrIgnore_self_ne_none store _ _)

theorem keeps_unpin (store : ObjectStore) (hash : Bytes 32) :
    Keeps store (store.unpin hash) := by
  unfold ObjectStore.unpin
  split
  case h_1 => exact keeps_insert _
  case h_2 => exact keeps_refl store

theorem keeps_pin (store : ObjectStore) (hash : Bytes 32) :
    Keeps store (store.pin hash) := by
  unfold ObjectStore.pin
  split
  case h_1 => exact keeps_insert _
  case h_2 => exact keeps_refl store

/-- What a step does that meets the condition. -/
inductive StorageStep (w : StorageNode) : StorageNode → Prop where
  | asked (conn : Nat) (offer : StorageOffer) (offers : Nat) (looked : Bool)
      (hidle : w.tasks conn = none)
      (hlooked : looked = false → ∀ n, w.tasks n ≠ some (.emptied offer.hash)) :
      StorageStep w { w.goOn conn
          (.asked offer (looked && (w.store offer.hash).isSome)) with offers }
  | unanswered (conn : Nat) (offer : StorageOffer) (alreadyHave : Bool)
      (htask : w.tasks conn = some (.asked offer alreadyHave)) :
      StorageStep w (w.finish conn)
  | had (conn : Nat) (offer : StorageOffer)
      (htask : w.tasks conn = some (.asked offer true))
      (hlisted : offer.peer ∈ w.provenance.publishers offer.hash) :
      StorageStep w ((w.record (.answered offer false)).finish conn)
  | wants (conn : Nat) (offer : StorageOffer)
      (htask : w.tasks conn = some (.asked offer false)) :
      StorageStep w ((w.record (.answered offer true)).goOn conn
        (.wanted offer))
  | failed (conn : Nat) (offer : StorageOffer) (store : ObjectStore)
      (htask : w.tasks conn = some (.wanted offer))
      (hkeeps : Keeps w.store store) :
      StorageStep w { (w.record (.failed offer)).finish conn with store }
  | ingested (conn : Nat) (offer : StorageOffer) (store : ObjectStore)
      (htask : w.tasks conn = some (.wanted offer))
      (hkeeps : Keeps w.store store) (hhas : (store offer.hash).isSome) :
      StorageStep w { w.goOn conn (.ingested offer) with store }
  | noted (conn : Nat) (offer : StorageOffer)
      (htask : w.tasks conn = some (.ingested offer)) :
      StorageStep w { w.finish conn with
        provenance := w.provenance.notePublisher offer.hash offer.peer }
  | published (conn : Nat) (hash : Bytes 32) (peer : Address)
      (hidle : w.tasks conn = none)
      (hlisted : peer ∈ w.provenance.publishers hash) :
      StorageStep w (w.goOn conn (.published hash peer))
  | ignored (hash : Bytes 32) (peer : Address) :
      StorageStep w (w.record (.retracted peer hash))
  | narrowed (conn : Nat) (hash : Bytes 32) (peer : Address)
      (htask : w.tasks conn = some (.published hash peer)) :
      StorageStep w { (w.record (.retracted peer hash)).finish conn with
        provenance := (w.provenance.dropPublisher hash peer).2 }
  | emptied (conn : Nat) (hash : Bytes 32) (peer : Address)
      (htask : w.tasks conn = some (.published hash peer))
      (hnone : (w.provenance.publishers hash).erase peer = ∅)
      (hquiet : ∀ offer, OfferInFlight w offer → offer.hash ≠ hash) :
      StorageStep w { (w.record (.retracted peer hash)).goOn conn
          (.emptied hash) with
        provenance := (w.provenance.dropPublisher hash peer).2 }
  | unpinned (conn : Nat) (hash : Bytes 32) (store : ObjectStore)
      (htask : w.tasks conn = some (.emptied hash))
      (hkeeps : Keeps w.store store) :
      StorageStep w { (w.record (.unpinned hash)).finish conn with store }
  | absent (conn : Nat) (hash : Bytes 32)
      (htask : w.tasks conn = some (.emptied hash)) :
      StorageStep w (w.finish conn)
  | own (store : ObjectStore) (hkeeps : Keeps w.store store) :
      StorageStep w { w with store }

theorem storageStep_cases {a : StorageAction} (hok : Provenant w a)
    (h : storageStep crypto w a = some w') : StorageStep w w' := by
  cases a with
  | storageOffer conn peer hash looked =>
      simp only [storageStep] at h
      split at h
      case h_1 => cases h
      case h_2 hidle =>
        injection h with h
        subst h
        exact .asked conn ⟨w.offers, peer, hash⟩ _ looked hidle hok
  | sendWant conn sent =>
      simp only [storageStep] at h
      split at h
      case h_2 => cases h
      case h_1 offer alreadyHave htask =>
        cases sent with
        | false =>
            injection h with h
            subst h
            exact .unanswered conn offer alreadyHave htask
        | true =>
            cases alreadyHave with
            | true =>
                injection h with h
                subst h
                exact .had conn offer htask (hok rfl offer htask)
            | false =>
                injection h with h
                subst h
                exact .wants conn offer htask
  | storageHave conn followUp stored =>
      simp only [storageStep] at h
      split at h
      case h_2 => cases h
      case h_1 offer htask =>
        cases followUp with
        | none =>
            injection h with h
            subst h
            exact .failed conn offer w.store htask (keeps_refl w.store)
        | some payload =>
            replace h : (if payload.hash ≠ offer.hash ∨ stored = false then _
              else _) = some w' := h
            split at h
            case isTrue =>
              injection h with h
              subst h
              exact .failed conn offer w.store htask (keeps_refl w.store)
            case isFalse =>
              have hkeeps := keeps_put crypto w.store payload.bytes
              split at h
              case isTrue hhash =>
                injection h with h
                subst h
                refine .ingested conn offer _ htask hkeeps ?_
                rw [← hhash]
                exact put_isSome ..
              case isFalse =>
                injection h with h
                subst h
                exact .failed conn offer _ htask hkeeps
  | notePublisher conn =>
      simp only [storageStep] at h
      split at h
      case h_2 => cases h
      case h_1 offer htask =>
        injection h with h
        subst h
        exact .noted conn offer htask
  | storageRetract conn peer hash =>
      simp only [storageStep] at h
      split at h
      case h_1 => cases h
      case h_2 hidle =>
        split at h
        case isTrue hlisted =>
          injection h with h
          subst h
          exact .published conn hash peer hidle (hasPublisher_iff.mp hlisted)
        case isFalse =>
          injection h with h
          subst h
          exact .ignored hash peer
  | dropPublisher conn =>
      simp only [storageStep] at h
      split at h
      case h_2 => cases h
      case h_1 hash peer htask =>
        split at h
        case isTrue =>
          injection h with h
          subst h
          exact .narrowed conn hash peer htask
        case isFalse hremain =>
          injection h with h
          subst h
          have hnone := dropPublisher_none (Bool.eq_false_iff.mpr hremain)
          exact .emptied conn hash peer htask hnone
            (hok hash peer htask hnone)
  | unpin conn done =>
      simp only [storageStep] at h
      split at h
      case h_2 => cases h
      case h_1 hash htask =>
        split at h
        case isTrue =>
          injection h with h
          subst h
          exact .unpinned conn hash _ htask (keeps_unpin w.store hash)
        case isFalse =>
          injection h with h
          subst h
          exact .absent conn hash htask
  | ownPut bytes =>
      injection h with h
      subst h
      exact .own _ (keeps_put crypto w.store bytes)
  | ownPin hash =>
      injection h with h
      subst h
      exact .own _ (keeps_pin w.store hash)

-- =========================================================== the invariant

section views

variable {view : StorageTask → Option StorageOffer} {conn : Nat}
  {task : StorageTask} {offer : StorageOffer}

/-- A connection that begins leaves the others as they are. -/
theorem atWork_begin (h : AtWork view w offer)
    (hidle : w.tasks conn = none) :
    AtWork view (w.goOn conn task) offer := by
  obtain ⟨n, old, hold, hview⟩ := h
  have hn : n ≠ conn := by
    rintro rfl
    rw [hidle] at hold
    cases hold
  exact ⟨n, old, (Table.insert_of_ne _ _ hn).trans hold, hview⟩

/-- A connection that goes on is at the offer as long as its task is. -/
theorem atWork_goOn {before : StorageTask} (h : AtWork view w offer)
    (htask : w.tasks conn = some before)
    (hsame : view before = some offer → view task = some offer) :
    AtWork view (w.goOn conn task) offer := by
  obtain ⟨n, old, hold, hview⟩ := h
  by_cases hn : n = conn
  · subst hn
    rw [htask] at hold
    cases hold
    exact ⟨n, task, Table.insert_self .., hsame hview⟩
  · exact ⟨n, old, (Table.insert_of_ne _ _ hn).trans hold, hview⟩

/-- A connection that was not at the offer finishes without it. -/
theorem atWork_finish {before : StorageTask} (h : AtWork view w offer)
    (htask : w.tasks conn = some before) (hother : view before ≠ some offer) :
    AtWork view (w.finish conn) offer := by
  obtain ⟨n, old, hold, hview⟩ := h
  have hn : n ≠ conn := by
    rintro rfl
    rw [htask] at hold
    cases hold
    exact hother hview
  exact ⟨n, old, (Table.erase_of_ne _ hn).trans hold, hview⟩

theorem atWork_of_goOn (h : AtWork view (w.goOn conn task) offer) :
    AtWork view w offer ∨ view task = some offer := by
  obtain ⟨n, old, hold, hview⟩ := h
  rcases (Table.insert_eq_some_iff _).mp hold with ⟨-, rfl⟩ | ⟨-, hold⟩
  · exact .inr hview
  · exact .inl ⟨n, old, hold, hview⟩

theorem atWork_of_finish (h : AtWork view (w.finish conn) offer) :
    AtWork view w offer := by
  obtain ⟨n, old, hold, hview⟩ := h
  exact ⟨n, old, ((Table.erase_eq_some_iff _).mp hold).2, hview⟩

end views

theorem offerInFlight_of_delivering {offer : StorageOffer}
    (h : AtWork delivering w offer) : OfferInFlight w offer := by
  obtain ⟨n, task, htask, hview⟩ := h
  exact ⟨n, task, htask, pending_of_delivering hview⟩

/-- Nobody is on the list of the object, and no offer of it is in flight. -/
def Unoffered (w : StorageNode) (hash : Bytes 32) : Prop :=
  w.provenance.publishers hash = ∅
    ∧ ∀ offer, OfferInFlight w offer → offer.hash ≠ hash

/-- What holds of every state that a run meeting the condition reaches. -/
structure ProvenanceInv (w : StorageNode) : Prop where
  listed : ∀ hash peer, peer ∈ w.provenance.publishers hash →
    (w.store hash).isSome
  found : ∀ conn task hash, w.tasks conn = some task →
    found task = some hash → (w.store hash).isSome
  backed : ∀ offer ∈ standing w.events, AtWork delivering w offer
    ∨ offer.peer ∈ w.provenance.publishers offer.hash
  emptied : ∀ conn task, w.tasks conn = some task →
    ∀ hash, task = .emptied hash → Unoffered w hash
  justified : Justified w.events

theorem listed_step (h : ProvenanceInv w) (hstep : StorageStep w w') :
    ∀ hash peer, peer ∈ w'.provenance.publishers hash →
      (w'.store hash).isSome := by
  cases hstep with
  | failed conn offer store htask hkeeps =>
      exact fun hash peer hp => hkeeps hash (h.listed hash peer hp)
  | ingested conn offer store htask hkeeps hhas =>
      exact fun hash peer hp => hkeeps hash (h.listed hash peer hp)
  | unpinned conn hash store htask hkeeps =>
      exact fun hash peer hp => hkeeps hash (h.listed hash peer hp)
  | own store hkeeps =>
      exact fun hash peer hp => hkeeps hash (h.listed hash peer hp)
  | noted conn offer htask =>
      intro hash peer hp
      rw [publishers_note] at hp
      split at hp
      case isTrue heq =>
        rw [heq]
        exact h.found conn _ _ htask rfl
      case isFalse => exact h.listed hash peer hp
  | narrowed conn hash side htask =>
      intro other peer hp
      rw [publishers_drop] at hp
      split at hp
      case isTrue => exact h.listed other peer (Finset.mem_of_mem_erase hp)
      case isFalse => exact h.listed other peer hp
  | emptied conn hash side htask hnone hquiet =>
      intro other peer hp
      rw [publishers_drop] at hp
      split at hp
      case isTrue => exact h.listed other peer (Finset.mem_of_mem_erase hp)
      case isFalse => exact h.listed other peer hp
  | _ => exact h.listed

/-- The task that a connection went on with, and the others. -/
theorem tasks_goOn {conn : Nat} {task : StorageTask}
    {P : StorageTask → Prop} (hold : ∀ n old, w.tasks n = some old → P old)
    (hnew : P task) :
    ∀ n old, (w.goOn conn task).tasks n = some old → P old := by
  intro n old hn
  rcases (Table.insert_eq_some_iff _).mp hn with ⟨-, rfl⟩ | ⟨-, hn⟩
  · exact hnew
  · exact hold n old hn

theorem tasks_finish {conn : Nat} {P : StorageTask → Prop}
    (hold : ∀ n old, w.tasks n = some old → P old) :
    ∀ n old, (w.finish conn).tasks n = some old → P old :=
  fun n old hn => hold n old ((Table.erase_eq_some_iff _).mp hn).2

/-- A task's object is in the store. -/
def Present (store : ObjectStore) (task : StorageTask) : Prop :=
  ∀ hash, found task = some hash → (store hash).isSome

theorem found_step (h : ProvenanceInv w) (hstep : StorageStep w w') :
    ∀ conn task, w'.tasks conn = some task → Present w'.store task := by
  have old : ∀ n task, w.tasks n = some task → Present w.store task :=
    fun n task hn hash => h.found n task hash hn
  have kept : ∀ {store}, Keeps w.store store →
      ∀ n task, w.tasks n = some task → Present store task :=
    fun hkeeps n task hn hash hfound => hkeeps hash (old n task hn hash hfound)
  cases hstep with
  | asked conn offer offers looked hidle hlooked =>
      exact tasks_goOn (w := w) old fun hash hfound => nomatch hfound
  | unanswered conn offer alreadyHave htask => exact tasks_finish (w := w) old
  | had conn offer htask hlisted => exact tasks_finish (w := w) old
  | wants conn offer htask =>
      exact tasks_goOn (w := w) old fun hash hfound => nomatch hfound
  | failed conn offer store htask hkeeps =>
      exact tasks_finish (w := w) (kept hkeeps)
  | ingested conn offer store htask hkeeps hhas =>
      refine tasks_goOn (w := w) (kept hkeeps) fun hash hfound => ?_
      cases hfound
      exact hhas
  | noted conn offer htask => exact tasks_finish (w := w) old
  | published conn hash peer hidle hlisted =>
      refine tasks_goOn (w := w) old fun other hfound => ?_
      cases hfound
      exact h.listed hash peer hlisted
  | ignored hash peer => exact old
  | narrowed conn hash peer htask => exact tasks_finish (w := w) old
  | emptied conn hash peer htask hnone hquiet =>
      refine tasks_goOn (w := w) old fun other hfound => ?_
      cases hfound
      exact h.found conn _ hash htask rfl
  | unpinned conn hash store htask hkeeps =>
      exact tasks_finish (w := w) (kept hkeeps)
  | absent conn hash htask => exact tasks_finish (w := w) old
  | own store hkeeps => exact kept hkeeps

/-- A publisher other than the one who retracts stays on the list. -/
theorem listed_drop {t : PublisherTable} {hash : Bytes 32} {peer : Address}
    {offer : StorageOffer}
    (hother : ¬ (offer.peer = peer ∧ offer.hash = hash))
    (h : offer.peer ∈ t.publishers offer.hash) :
    offer.peer ∈ (t.dropPublisher hash peer).2.publishers offer.hash := by
  rw [publishers_drop]
  split
  case isTrue heq =>
    exact Finset.mem_erase.mpr ⟨fun hpeer => hother ⟨hpeer, heq⟩, h⟩
  case isFalse => exact h

theorem listed_note {t : PublisherTable} {hash other : Bytes 32}
    {side peer : Address} (h : peer ∈ t.publishers other) :
    peer ∈ (t.notePublisher hash side).publishers other := by
  rw [publishers_note]
  split
  case isTrue => exact Finset.mem_insert_of_mem h
  case isFalse => exact h

/-- The peer of an offer that stands is on the list, or its object on its
way. -/
theorem backed_step (h : ProvenanceInv w) (hstep : StorageStep w w') :
    ∀ offer ∈ standing w'.events, AtWork delivering w' offer
      ∨ offer.peer ∈ w'.provenance.publishers offer.hash := by
  -- a connection that was at no delivery leaves all of them
  have away : ∀ {conn task}, w.tasks conn = some task →
      delivering task = none → ∀ offer, AtWork delivering w offer →
        AtWork delivering (w.finish conn) offer := by
    intro conn task htask hnone offer hwork
    refine atWork_finish hwork htask fun hview => ?_
    rw [hnone] at hview
    cases hview
  cases hstep with
  | asked conn offer offers looked hidle hlooked =>
      intro o ho
      exact (h.backed o ho).imp (fun hwork => atWork_begin hwork hidle) id
  | unanswered conn offer alreadyHave htask =>
      exact fun o ho => (h.backed o ho).imp (away htask rfl o) id
  | had conn offer htask hlisted =>
      intro o ho
      rcases standing_answered ho with ho | rfl
      · exact (h.backed o ho).imp (away htask rfl o) id
      · exact .inr hlisted
  | wants conn offer htask =>
      intro o ho
      rcases standing_answered ho with ho | rfl
      · refine (h.backed o ho).imp (fun hwork => ?_) id
        refine atWork_goOn (w := w) hwork htask fun hview => ?_
        cases hview
      · exact .inl ⟨conn, .wanted o, Table.insert_self .., rfl⟩
  | failed conn offer store htask hkeeps =>
      intro o ho
      obtain ⟨ho, hne⟩ := standing_failed ho
      refine (h.backed o ho).imp (fun hwork => ?_) id
      refine atWork_finish (w := w) hwork htask fun hview => ?_
      cases hview
      exact hne rfl
  | ingested conn offer store htask hkeeps hhas =>
      intro o ho
      exact (h.backed o ho).imp
        (fun hwork => atWork_goOn (w := w) hwork htask id) id
  | noted conn offer htask =>
      intro o ho
      rcases h.backed o ho with hwork | hlisted
      · by_cases hsame : o = offer
        · subst hsame
          refine .inr ?_
          rw [publishers_note, if_pos rfl]
          exact Finset.mem_insert_self ..
        · refine .inl (atWork_finish (w := w) hwork htask fun hview => ?_)
          cases hview
          exact hsame rfl
      · exact .inr (listed_note hlisted)
  | published conn hash peer hidle hlisted =>
      intro o ho
      exact (h.backed o ho).imp (fun hwork => atWork_begin hwork hidle) id
  | ignored hash peer =>
      intro o ho
      exact h.backed o (standing_retracted ho).1
  | narrowed conn hash peer htask =>
      intro o ho
      obtain ⟨ho, hother⟩ := standing_retracted ho
      exact (h.backed o ho).imp (away htask rfl o)
        (listed_drop hother)
  | emptied conn hash peer htask hnone hquiet =>
      intro o ho
      obtain ⟨ho, hother⟩ := standing_retracted ho
      refine (h.backed o ho).imp (fun hwork => ?_)
        (listed_drop hother)
      refine atWork_goOn (w := w) hwork htask fun hview => ?_
      cases hview
  | unpinned conn hash store htask hkeeps =>
      intro o ho
      exact (h.backed o (standing_unpinned ho)).imp (away htask rfl o) id
  | absent conn hash htask =>
      exact fun o ho => (h.backed o ho).imp (away htask rfl o) id
  | own store hkeeps => exact h.backed

/-- An object that is about to be unpinned and unoffered remains so: whoever
offers it is told that it is there. -/
theorem unoffered_step (hstep : StorageStep w w') {hash : Bytes 32} {n : Nat}
    (htask : w.tasks n = some (.emptied hash))
    (hpresent : (w.store hash).isSome) (h : Unoffered w hash) :
    Unoffered w' hash := by
  obtain ⟨hnone, hquiet⟩ := h
  have finished : ∀ {conn} offer, OfferInFlight (w.finish conn) offer →
      offer.hash ≠ hash :=
    fun offer hwork => hquiet offer (atWork_of_finish hwork)
  have wentOn : ∀ {conn task}, (∀ o, pending task = some o → o.hash ≠ hash) →
      ∀ o, OfferInFlight (w.goOn conn task) o → o.hash ≠ hash :=
    fun hnew o hwork => (atWork_of_goOn hwork).elim (hquiet o) (hnew o)
  have dropped : ∀ other peer,
      (w.provenance.dropPublisher other peer).2.publishers hash = ∅ := by
    intro other peer
    rw [publishers_drop, hnone, Finset.erase_empty, ite_self]
  cases hstep with
  | asked conn offer offers looked hidle hlooked =>
      refine ⟨hnone, wentOn fun o hnew => ?_⟩
      rintro rfl
      cases looked with
      | true =>
          -- it is found, so it is not wanted
          cases hhas : (w.store offer.hash).isSome with
          | true =>
              rw [hhas] at hnew
              cases hnew
          | false =>
              rw [hhas] at hnew
              cases hnew
              rw [hhas] at hpresent
              cases hpresent
      | false =>
          cases hnew
          exact hlooked rfl n htask
  | unanswered conn offer alreadyHave htask => exact ⟨hnone, finished⟩
  | had conn offer htask hlisted => exact ⟨hnone, finished⟩
  | wants conn offer htask =>
      refine ⟨hnone, wentOn fun o hnew => ?_⟩
      cases hnew
      exact hquiet offer ⟨conn, _, htask, rfl⟩
  | failed conn offer store htask hkeeps => exact ⟨hnone, finished⟩
  | ingested conn offer store htask hkeeps hhas =>
      refine ⟨hnone, wentOn fun o hnew => ?_⟩
      cases hnew
      exact hquiet offer ⟨conn, _, htask, rfl⟩
  | noted conn offer htask =>
      have hother : hash ≠ offer.hash :=
        (hquiet offer ⟨conn, _, htask, rfl⟩).symm
      refine ⟨?_, finished⟩
      rw [publishers_note, if_neg hother]
      exact hnone
  | published conn other peer hidle hlisted =>
      refine ⟨hnone, wentOn fun o hnew => ?_⟩
      cases hnew
  | ignored other peer => exact ⟨hnone, hquiet⟩
  | narrowed conn other peer htask => exact ⟨dropped other peer, finished⟩
  | emptied conn other peer htask hempty hcalm =>
      refine ⟨dropped other peer, wentOn fun o hnew => ?_⟩
      cases hnew
  | unpinned conn other store htask hkeeps => exact ⟨hnone, finished⟩
  | absent conn other htask => exact ⟨hnone, finished⟩
  | own store hkeeps => exact ⟨hnone, hquiet⟩

theorem emptied_step (h : ProvenanceInv w) (hstep : StorageStep w w') :
    ∀ conn task, w'.tasks conn = some task →
      ∀ hash, task = .emptied hash → Unoffered w' hash := by
  have old : ∀ n task, w.tasks n = some task →
      ∀ hash, task = .emptied hash → Unoffered w' hash := by
    rintro n task htask hash rfl
    exact unoffered_step hstep htask (h.found n _ hash htask rfl)
      (h.emptied n _ htask hash rfl)
  cases hstep with
  | asked conn offer offers looked hidle hlooked =>
      exact tasks_goOn (w := w) old fun hash heq => nomatch heq
  | unanswered conn offer alreadyHave htask => exact tasks_finish (w := w) old
  | had conn offer htask hlisted => exact tasks_finish (w := w) old
  | wants conn offer htask =>
      exact tasks_goOn (w := w) old fun hash heq => nomatch heq
  | failed conn offer store htask hkeeps => exact tasks_finish (w := w) old
  | ingested conn offer store htask hkeeps hhas =>
      exact tasks_goOn (w := w) old fun hash heq => nomatch heq
  | noted conn offer htask => exact tasks_finish (w := w) old
  | published conn hash peer hidle hlisted =>
      exact tasks_goOn (w := w) old fun other heq => nomatch heq
  | ignored hash peer => exact old
  | narrowed conn hash peer htask => exact tasks_finish (w := w) old
  | emptied conn hash peer htask hnone hquiet =>
      refine tasks_goOn (w := w) old fun other heq => ?_
      cases heq
      refine ⟨?_, fun o hwork => ?_⟩
      · rw [publishers_drop, if_pos rfl]
        exact hnone
      · rcases atWork_of_goOn (w := w) hwork with hwork | hnew
        · exact hquiet o hwork
        · cases hnew
  | unpinned conn hash store htask hkeeps => exact tasks_finish (w := w) old
  | absent conn hash htask => exact tasks_finish (w := w) old
  | own store hkeeps => exact old

/-- No offer stands of an object without one in flight or listed. -/
theorem standing_unoffered (h : ProvenanceInv w) {hash : Bytes 32}
    (hquiet : Unoffered w hash) : ∀ o ∈ standing w.events, o.hash ≠ hash := by
  intro o ho
  rcases h.backed o ho with hwork | hlisted
  · exact hquiet.2 o (offerInFlight_of_delivering hwork)
  · rintro rfl
    rw [hquiet.1] at hlisted
    exact Finset.notMem_empty _ hlisted

theorem justified_step (h : ProvenanceInv w) (hstep : StorageStep w w') :
    Justified w'.events := by
  cases hstep with
  | had conn offer htask hlisted =>
      exact h.justified.concat fun hash heq => nomatch heq
  | wants conn offer htask =>
      exact h.justified.concat fun hash heq => nomatch heq
  | failed conn offer store htask hkeeps =>
      exact h.justified.concat fun hash heq => nomatch heq
  | ignored hash peer =>
      exact h.justified.concat fun other heq => nomatch heq
  | narrowed conn hash peer htask =>
      exact h.justified.concat fun other heq => nomatch heq
  | emptied conn hash peer htask hnone hquiet =>
      exact h.justified.concat fun other heq => nomatch heq
  | unpinned conn hash store htask hkeeps =>
      refine h.justified.concat fun other heq => ?_
      cases heq
      exact standing_unoffered h (h.emptied conn _ htask hash rfl)
  | _ => exact h.justified

theorem provenanceInv_init (store : ObjectStore) :
    ProvenanceInv (.init store) where
  listed := fun _ _ h => absurd h (Finset.notMem_empty _)
  found := fun _ _ _ h => nomatch h
  backed := fun _ h => absurd h List.not_mem_nil
  emptied := fun _ _ h => nomatch h
  justified := justified_nil

theorem provenanceInv_step {a : StorageAction} (hok : Provenant w a)
    (h : ProvenanceInv w) (hs : storageStep crypto w a = some w') :
    ProvenanceInv w' := by
  have hstep := storageStep_cases hok hs
  exact ⟨listed_step h hstep,
    fun conn task hash htask hfound =>
      found_step h hstep conn task htask hash hfound,
    backed_step h hstep, emptied_step h hstep, justified_step h hstep⟩

-- ================================================================== a run

/-- In every run whose steps all meet the condition, an object is unpinned
only when each of its offers that was answered and did not fail to be
delivered has been retracted since by its peer. -/
theorem publisher_provenance (crypto : Crypto) (store : ObjectStore)
    (acts : List StorageAction) (w : StorageNode)
    (halong : Along (storageStep crypto) Provenant (.init store) acts)
    (hrun : run (storageStep crypto) (.init store) acts = some w)
    (before after : List StorageEvent) (hash : Bytes 32)
    (hunpin : w.events = before ++ .unpinned hash :: after)
    (earlier later : List StorageEvent) (offer : StorageOffer) (want : Bool)
    (hanswered : before = earlier ++ .answered offer want :: later)
    (hhash : offer.hash = hash) :
    .failed offer ∈ later ∨ .retracted offer.peer hash ∈ later := by
  have hinv : ProvenanceInv w := run_induct
    (fun _ _ _ hok h hs => provenanceInv_step hok h hs) halong
    (provenanceInv_init store) hrun
  subst hhash
  by_contra hnot
  obtain ⟨hfailed, hretracted⟩ := not_or.mp hnot
  have hmem : offer ∈ standing before := by
    rw [hanswered]
    exact mem_standing want hfailed hretracted
  exact hinv.justified before offer.hash after hunpin offer hmem rfl

def firstPublisher : Address := Bytes.fill _ 1

def secondPublisher : Address := Bytes.fill _ 2

/-- Two sides offer an object that is not there, both bring it, and both
retract it. -/
def broughtByTwo : List StorageAction :=
  [.storageOffer 0 firstPublisher (Bytes.fill _ 0) true, .sendWant 0 true,
    .storageOffer 1 secondPublisher (Bytes.fill _ 0) true, .sendWant 1 true,
    .storageHave 0 (some ⟨Bytes.fill _ 0, [], true⟩) true, .notePublisher 0,
    .storageHave 1 (some ⟨Bytes.fill _ 0, [], true⟩) true, .notePublisher 1,
    .storageRetract 0 firstPublisher (Bytes.fill _ 0), .dropPublisher 0,
    .storageRetract 1 secondPublisher (Bytes.fill _ 0), .dropPublisher 1,
    .unpin 1 true]

/-- Both are wanted, and the list is empty when nobody is at work any more. -/
theorem along_broughtByTwo :
    Along (storageStep .refusing) Provenant (.init .empty) broughtByTwo := by
  have hwanted {w : StorageNode} {conn : Nat} {offer : StorageOffer}
      (htask : w.tasks conn = some (.asked offer false)) :
      Provenant w (.sendWant conn true) := by
    intro _ offer' htask'
    rw [htask] at htask'
    cases htask'
  refine .cons rfl nofun (.cons rfl (hwanted rfl) (.cons rfl nofun
    (.cons rfl (hwanted rfl) (.cons rfl trivial (.cons rfl trivial
    (.cons rfl trivial (.cons rfl trivial (.cons rfl trivial
    (.cons rfl ?_ (.cons rfl trivial (.cons rfl ?_ (.cons rfl trivial
    trivial))))))))))))
  · -- the second is still on the list
    intro hash peer htask hempty
    cases htask
    exact absurd hempty (by decide)
  · rintro hash peer htask - offer ⟨conn, task, hconn, hpending⟩
    by_cases h1 : conn = 1
    · subst h1
      cases hconn
      cases hpending
    · have hidle : (none : Option StorageTask) = some task := by
        rw [← hconn]
        by_cases h0 : conn = 0
        · subst h0
          rfl
        · simp [StorageNode.goOn, StorageNode.finish, StorageNode.record,
            StorageNode.init, h0, h1]
      cases hidle

/-- The unpin comes after the retracts of both: of the first, whose offer was
answered before the second's, and of the second. -/
theorem publisher_provenance_two :
    let retracts : List StorageEvent :=
      [.retracted firstPublisher (Bytes.fill _ 0),
        .retracted secondPublisher (Bytes.fill _ 0)]
    let second : StorageOffer := ⟨1, secondPublisher, Bytes.fill _ 0⟩
    (.failed ⟨0, firstPublisher, Bytes.fill _ 0⟩
          ∈ .answered second true :: retracts
        ∨ .retracted firstPublisher (Bytes.fill _ 0)
          ∈ .answered second true :: retracts)
      ∧ (.failed second ∈ retracts
        ∨ .retracted secondPublisher (Bytes.fill _ 0) ∈ retracts) := by
  intro retracts second
  let first : StorageOffer := ⟨0, firstPublisher, Bytes.fill _ 0⟩
  have hrun : run (storageStep .refusing) (.init .empty) broughtByTwo
    = some _ := rfl
  have hafter := publisher_provenance .refusing .empty broughtByTwo _
    along_broughtByTwo hrun
    (.answered first true :: .answered second true :: retracts) []
    (Bytes.fill _ 0) rfl
  exact ⟨hafter [] (.answered second true :: retracts) first true rfl rfl,
    hafter [.answered first true] retracts second true rfl rfl⟩

/-- An offer of an object that is there is not put on the list: the retract
of the one who brought it unpins it. -/
theorem present_offer_unpinned :
    ∃ acts w before after hash earlier later offer,
      run (storageStep .refusing) (.init .empty) acts = some w
      ∧ w.events = before ++ .unpinned hash :: after
      ∧ before = earlier ++ .answered offer false :: later
      ∧ offer.hash = hash ∧ .failed offer ∉ later
      ∧ .retracted offer.peer hash ∉ later := by
  have hrun : run (storageStep .refusing) (.init .empty)
      [.storageOffer 0 (Bytes.fill _ 1) (Bytes.fill _ 0) true, .sendWant 0 true,
        .storageHave 0 (some ⟨Bytes.fill _ 0, [], true⟩) true, .notePublisher 0,
        .storageOffer 1 (Bytes.fill _ 2) (Bytes.fill _ 0) true, .sendWant 1 true,
        .storageRetract 0 (Bytes.fill _ 1) (Bytes.fill _ 0),
        .dropPublisher 0, .unpin 0 true] = some _ := rfl
  refine ⟨_, _, [.answered ⟨0, Bytes.fill _ 1, Bytes.fill _ 0⟩ true,
    .answered ⟨1, Bytes.fill _ 2, Bytes.fill _ 0⟩ false,
    .retracted (Bytes.fill _ 1) (Bytes.fill _ 0)], [], Bytes.fill _ 0,
    [.answered ⟨0, Bytes.fill _ 1, Bytes.fill _ 0⟩ true],
    [.retracted (Bytes.fill _ 1) (Bytes.fill _ 0)],
    ⟨1, Bytes.fill _ 2, Bytes.fill _ 0⟩, hrun, rfl, rfl, rfl, ?_, ?_⟩
  · decide
  · decide

/-- Two sides offer an object that is not there. The second brings it while
the retract of the first is between the look at the list and the unpin. -/
theorem late_publisher_unpinned :
    ∃ acts w offer, run (storageStep .refusing) (.init .empty) acts = some w
      ∧ w.events = [.answered ⟨0, Bytes.fill _ 1, Bytes.fill _ 0⟩ true,
          .answered offer true, .retracted (Bytes.fill _ 1) (Bytes.fill _ 0),
          .unpinned (Bytes.fill _ 0)]
      ∧ offer.hash = Bytes.fill _ 0 ∧ offer.peer ≠ Bytes.fill _ 1
      ∧ offer.peer ∈ w.provenance.publishers offer.hash := by
  have hrun : run (storageStep .refusing) (.init .empty)
      [.storageOffer 0 (Bytes.fill _ 1) (Bytes.fill _ 0) true, .sendWant 0 true,
        .storageOffer 1 (Bytes.fill _ 2) (Bytes.fill _ 0) true, .sendWant 1 true,
        .storageHave 0 (some ⟨Bytes.fill _ 0, [], true⟩) true, .notePublisher 0,
        .storageRetract 0 (Bytes.fill _ 1) (Bytes.fill _ 0),
        .dropPublisher 0,
        .storageHave 1 (some ⟨Bytes.fill _ 0, [], true⟩) true, .notePublisher 1,
        .unpin 0 true] = some _ := rfl
  exact ⟨_, _, ⟨1, Bytes.fill _ 2, Bytes.fill _ 0⟩, hrun, rfl, rfl, by decide,
    by decide⟩

end Sidevers.Proofs
