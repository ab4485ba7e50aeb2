/-
Which broadcasts a node fans out, and how often, under the Open policy.

All hosted sides put what is through their gates to one dedup map. So a
broadcast is fanned out at the endpoint whose loop puts it there first, to
everyone else registered there (`FirstInv`), and nowhere else: not at another
endpoint which it gets through for the first time, either. The map forgets a
key only after `dedupTtlSecs`, and only once it has `maxDedupEntries`; until
then there is no second fan-out (`OnceInv`).

# What carries `OnceInv`

A fan-out is owed from the moment its key was new to the map. What is owed and
what was fanned out is in the map still, under a time no earlier, or is
forgotten; so whatever is new to the map is far apart from all of it.

# Where it ends

What is first at an endpoint need not be first at the node (`announcedTwice`).
And a broadcast stamped ahead of the clock is fresh for longer than the replay
cache and the map remember it: once the map is large enough to be swept, it is
fanned out again (`floodAgain`; `Filled k` is the state after `k` broadcasts of
as many signers in one second).
-/
import Sidevers.Proofs.BroadcastSteps
import Sidevers.Proofs.Gate
import Mathlib.Data.Finset.Card

namespace Sidevers.Proofs

open Sidevers.Core
open Sidevers.Lib
open Sidevers.Net

universe u
variable {P : Type u}

-- ============================================================ the property

/-- The key an event puts to the dedup map. -/
def putKey : BroadcastEvent P → Option Key
  | .observed _ env _ => some (replayKey env)
  | _ => none

/-- The keys put to the dedup map so far. -/
def putKeys (log : List (BroadcastEvent P)) : List Key := log.filterMap putKey

/-- What an event fans out, by its key, and when the map was asked. -/
def fanOutOf : BroadcastEvent P → Option (Key × Nat)
  | .fannedOut _ env seenAt _ => some (replayKey env, seenAt)
  | _ => none

/-- What was fanned out so far, at whichever endpoint. -/
def fanOuts (log : List (BroadcastEvent P)) : List (Key × Nat) :=
  log.filterMap fanOutOf

/-- Who is registered at the endpoints by now. -/
def registeredPeers :
    List (BroadcastEvent P) → Address → Table Address SessionId
  | [] => fun _ => .empty
  | .registered id :: older =>
      Function.update (registeredPeers older) id.endpoint
        ((registeredPeers older id.endpoint).insert id.peer id)
  | .unregistered id :: older =>
      Function.update (registeredPeers older) id.endpoint
        ((registeredPeers older id.endpoint).erase id.peer)
  | _ :: older => registeredPeers older

/-- All of them but the one a broadcast came from. -/
def allBut (source : Address) (peers : Table Address SessionId) :
    Table Address SessionId := fun peer =>
  if peer ≠ source then peers peer else none

/-- A fan-out is owed for an envelope. -/
def Owed (n : BroadcastNode P) (id : SessionId) (env : Envelope P)
    (seenAt : Nat) : Prop :=
  n.sessions id = some (.readPolicy env seenAt)
    ∨ n.sessions id = some (.fanOut env seenAt .openAll)

/-- Two fan-outs of one key are as far apart as the map remembers, and as many
keys were put to it as it holds. -/
def FarApart (log : List (BroadcastEvent P)) (x y : Key × Nat) : Prop :=
  x.1 = y.1 →
    (x.2 + dedupTtlSecs ≤ y.2 ∨ y.2 + dedupTtlSecs ≤ x.2)
      ∧ maxDedupEntries ≤ (putKeys log).toFinset.card

/-- The action a loop behind the gates goes on with. -/
def nextAction (id : SessionId) : BroadcastPc P → BroadcastAction P
  | .serve => .close id
  | .observe _ => .observe id
  | .readPolicy _ _ => .readPolicy id
  | .fanOut _ _ _ => .fanOut id

/-- What is through the gates of an endpoint is put to the map of the node;
the first with its key goes to everyone else who is registered at the
endpoint; and no key is fanned out twice before the map has forgotten it. -/
structure FannedOutOnce [DecidableEq P] (n : BroadcastNode P) : Prop where
  put : ∀ newer older id env, n.log = newer ++ .passed id env :: older →
    n.sessions id = some (.observe env)
      ∨ ∃ later now between,
        newer = later ++ .observed id env now :: between
  fanned : ∀ newer older id env now,
    n.log = newer ++ .observed id env now :: older →
    replayKey env ∉ putKeys older →
      Owed n id env now
        ∨ ∃ later between, newer = later ++ .fannedOut id env now
          (allBut id.peer (registeredPeers
            (between ++ .observed id env now :: older) id.endpoint)) :: between
  once : (fanOuts n.log).Pairwise (FarApart n.log)
  /-- Nothing holds up a loop that is behind the gates. -/
  unblocked : ∀ id pc, n.sessions id = some pc → pc ≠ .serve →
    (broadcastStep n (nextAction id pc)).isSome = true

-- ============================================================ the dedup map

section dedup

variable {g : GossipState} {env : Envelope P} {now t : Nat} {k : Key}

/-- The map keeps an entry, or it is large and the entry old. -/
theorem sweep_get_some (h : g.dedup.get k = some t) :
    (g.sweep now).get k = some t
      ∨ (g.sweep now).get k = none ∧ t + dedupTtlSecs ≤ now
        ∧ maxDedupEntries ≤ g.dedup.rows.length := by
  unfold GossipState.sweep
  split
  case isFalse => exact Or.inl h
  case isTrue hlarge =>
    rw [Rows.get_retain, h]
    by_cases hyoung : now - t < dedupTtlSecs
    · simp [hyoung]
    · right
      simp only [Nat.not_lt] at hyoung
      refine ⟨by simp [hyoung], ?_, hlarge⟩
      unfold dedupTtlSecs at hyoung ⊢
      omega

/-- Nothing comes in by a sweep. -/
theorem get_of_sweep (h : (g.sweep now).get k = some t) :
    g.dedup.get k = some t := by
  unfold GossipState.sweep at h
  split at h
  case isFalse => exact h
  case isTrue =>
    rw [Rows.get_retain, Option.filter_eq_some_iff] at h
    exact h.1

theorem observe_fst :
    (g.observe env now).1 = true
      ↔ (g.sweep now).get (replayKey env) = none := by
  cases hget : (g.sweep now).get (replayKey env) with
  | none => simp [GossipState.observe, hget]
  | some seen => simp [GossipState.observe, hget]

/-- The map after it was asked: the key is in it, the others as the sweep left
them. -/
theorem observe_get :
    (g.observe env now).2.dedup.get k
      = if k = replayKey env
        then some (((g.sweep now).get (replayKey env)).getD now)
        else (g.sweep now).get k := by
  cases hget : (g.sweep now).get (replayKey env) with
  | none =>
      simp only [GossipState.observe, hget]
      rw [Rows.get_insertOrIgnore, hget]
  | some seen =>
      simp only [GossipState.observe, hget]
      split
      case isTrue hk =>
        rw [hk]
        exact hget
      case isFalse => rfl

end dedup

-- ============================================================ what was put

section put

variable {n n' : BroadcastNode P}

/-- The map has what was put to it. -/
def KeysPut (n : BroadcastNode P) : Prop :=
  ∀ k t, n.gossip.dedup.get k = some t → k ∈ putKeys n.log

theorem keysPut_start (caches : Address → ReplayCache) :
    KeysPut (BroadcastNode.start caches : BroadcastNode P) := by
  intro k t h
  cases h

theorem KeysPut.observe {env : Envelope P} {now : Nat} {id : SessionId}
    (h : KeysPut n) {k : Key} {t : Nat}
    (hget : (n.gossip.observe env now).2.dedup.get k = some t) :
    k ∈ putKeys (.observed id env now :: n.log) := by
  rw [observe_get] at hget
  split at hget
  case isTrue hk =>
    rw [hk]
    exact List.mem_cons_self
  case isFalse => exact List.mem_cons_of_mem _ (h k t (get_of_sweep hget))

theorem keysPut_move (h : KeysPut n) (hmove : Move n n') : KeysPut n' := by
  cases hmove with
  | quiet clock sessions gossip active log policy =>
      unfold KeysPut
      rw [gossip, log]
      exact h
  | first hpc hnew => exact fun k t hget => h.observe hget
  | again hpc hseen => exact fun k t hget => h.observe hget
  | begins | passes | reads | fans | ends | cleans => exact h

/-- The keys put to the map only get more. -/
theorem card_putKeys_cons (log : List (BroadcastEvent P))
    (e : BroadcastEvent P) :
    (putKeys log).toFinset.card ≤ (putKeys (e :: log)).toFinset.card := by
  apply Finset.card_le_card
  intro k hk
  rw [List.mem_toFinset] at hk ⊢
  unfold putKeys
  rw [List.filterMap_cons]
  split
  · exact hk
  · exact List.mem_cons_of_mem _ hk

/-- The map is no larger than what was put to it. -/
theorem KeysPut.rows_le (h : KeysPut n) :
    n.gossip.dedup.rows.length ≤ (putKeys n.log).toFinset.card := by
  rw [← List.length_map Prod.fst,
    ← List.toFinset_card_of_nodup n.gossip.dedup.nodup]
  apply Finset.card_le_card
  intro k hk
  rw [List.mem_toFinset] at hk ⊢
  obtain ⟨⟨k', t⟩, hrow, rfl⟩ := List.mem_map.mp hk
  exact h _ t (Rows.get_eq_some_iff.mpr hrow)

end put

-- ========================================================= the first time

section first

variable {n n' : BroadcastNode P}

/-- An event in a log is the last or was there before. -/
theorem split_log {e x : BroadcastEvent P}
    {log newer older : List (BroadcastEvent P)}
    (h : e :: log = newer ++ x :: older) :
    newer = [] ∧ e = x ∧ log = older
      ∨ ∃ rest, newer = e :: rest ∧ log = rest ++ x :: older := by
  cases newer with
  | nil =>
      rw [List.nil_append, List.cons.injEq] at h
      exact Or.inl ⟨rfl, h.1, h.2⟩
  | cons first rest =>
      rw [List.cons_append, List.cons.injEq] at h
      exact Or.inr ⟨rest, congrArg (· :: rest) h.1.symm, h.2⟩

/-- What holds of every public envelope through the gates. -/
structure FirstInv (n : BroadcastNode P) : Prop where
  policy : n.gossipPolicy = .openAll
  registry : n.activeGossip = registeredPeers n.log
  put : ∀ newer older id env, n.log = newer ++ .passed id env :: older →
    n.sessions id = some (.observe env)
      ∨ ∃ later now between,
        newer = later ++ .observed id env now :: between
  fanned : ∀ newer older id env now,
    n.log = newer ++ .observed id env now :: older →
    replayKey env ∉ putKeys older →
      Owed n id env now
        ∨ ∃ later between, newer = later ++ .fannedOut id env now
          (allBut id.peer (registeredPeers
            (between ++ .observed id env now :: older) id.endpoint)) :: between

theorem firstInv_start (caches : Address → ReplayCache) :
    FirstInv (BroadcastNode.start caches : BroadcastNode P) where
  policy := rfl
  registry := rfl
  put := by
    intro newer older id env h
    cases newer <;> cases h
  fanned := by
    intro newer older id env now h
    cases newer <;> cases h

/-- Nothing is recorded: no loop is further. -/
theorem FirstInv.silent (h : FirstInv n)
    (hpolicy : n'.gossipPolicy = .openAll)
    (hactive : n'.activeGossip = n.activeGossip) (hlog : n'.log = n.log)
    (hobserve : ∀ id env, n.sessions id = some (.observe env) →
      n'.sessions id = some (.observe env))
    (howed : ∀ id env now, Owed n id env now → Owed n' id env now) :
    FirstInv n' where
  policy := hpolicy
  registry := by rw [hactive, hlog, h.registry]
  put := by
    intro newer older id env heq
    rw [hlog] at heq
    exact (h.put newer older id env heq).imp_left (hobserve id env)
  fanned := by
    intro newer older id env now heq hnew
    rw [hlog] at heq
    exact (h.fanned newer older id env now heq hnew).imp_left (howed id env now)

/-- An event is recorded: what was pending is still, or this is the event. -/
theorem FirstInv.record {e : BroadcastEvent P} (h : FirstInv n)
    (hlog : n'.log = e :: n.log) (hpolicy : n'.gossipPolicy = .openAll)
    (hregistry : n'.activeGossip = registeredPeers (e :: n.log))
    (hobserve : ∀ id env, n.sessions id = some (.observe env) →
      n'.sessions id = some (.observe env) ∨ ∃ now, e = .observed id env now)
    (hpassed : ∀ id env, e = .passed id env →
      n'.sessions id = some (.observe env))
    (howed : ∀ id env now, Owed n id env now → Owed n' id env now
      ∨ e = .fannedOut id env now
        (allBut id.peer (registeredPeers n.log id.endpoint)))
    (hobserved : ∀ id env now, e = .observed id env now →
      replayKey env ∉ putKeys n.log → Owed n' id env now) :
    FirstInv n' where
  policy := hpolicy
  registry := by rw [hlog, hregistry]
  put := by
    intro newer older id env heq
    rw [hlog] at heq
    rcases split_log heq with ⟨-, he, -⟩ | ⟨rest, rfl, hrest⟩
    · exact Or.inl (hpassed id env he)
    · rcases h.put rest older id env hrest with
        hpc | ⟨later, now, between, hlater⟩
      · rcases hobserve id env hpc with hpc' | ⟨now, he⟩
        · exact Or.inl hpc'
        · exact Or.inr ⟨[], now, rest, by rw [he]; rfl⟩
      · exact Or.inr ⟨e :: later, now, between, by rw [hlater]; rfl⟩
  fanned := by
    intro newer older id env now heq hnew
    rw [hlog] at heq
    rcases split_log heq with ⟨-, he, hold⟩ | ⟨rest, rfl, hrest⟩
    · rw [← hold] at hnew
      exact Or.inl (hobserved id env now he hnew)
    · rcases h.fanned rest older id env now hrest hnew with
        hpc | ⟨later, between, hlater⟩
      · rcases howed id env now hpc with hpc' | he
        · exact Or.inl hpc'
        · refine Or.inr ⟨[], rest, ?_⟩
          rw [he, hrest]
          rfl
      · exact Or.inr ⟨e :: later, between, by rw [hlater]; rfl⟩

theorem Owed.of_eq {id : SessionId} {env : Envelope P} {now : Nat}
    (h : Owed n id env now) (hsame : n'.sessions id = n.sessions id) :
    Owed n' id env now := by
  unfold Owed
  rw [hsame]
  exact h

/-- All loops but one are where they were. -/
def Elsewhere (n n' : BroadcastNode P) (moved : SessionId) : Prop :=
  ∀ other, other ≠ moved → n'.sessions other = n.sessions other

theorem elsewhere_insert {moved : SessionId} {pc : BroadcastPc P}
    (h : n'.sessions = n.sessions.insert moved pc) : Elsewhere n n' moved := by
  intro other hne
  rw [h]
  exact Table.insert_of_ne _ _ hne

theorem elsewhere_erase {moved : SessionId}
    (h : n'.sessions = n.sessions.erase moved) : Elsewhere n n' moved := by
  intro other hne
  rw [h]
  exact Table.erase_of_ne _ hne

/-- Only one loop moves, and it was not waiting for the map. -/
theorem observing_moved {id moved : SessionId} {env : Envelope P}
    (hother : Elsewhere n n' moved)
    (hnot : n.sessions moved ≠ some (.observe env))
    (h : n.sessions id = some (.observe env)) :
    n'.sessions id = some (.observe env) := by
  have hne : id ≠ moved := by
    rintro rfl
    exact hnot h
  rw [hother id hne]
  exact h

/-- Nor did it owe a fan-out. -/
theorem owed_moved {id moved : SessionId} {env : Envelope P} {now : Nat}
    (hother : Elsewhere n n' moved)
    (hnot : ¬ Owed n moved env now) (h : Owed n id env now) :
    Owed n' id env now := by
  have hne : id ≠ moved := by
    rintro rfl
    exact hnot h
  exact h.of_eq (hother id hne)

/-- Or it was, and now the map is asked. -/
theorem observing_asked {id moved : SessionId} {env env' : Envelope P}
    {now : Nat} (hother : Elsewhere n n' moved)
    (hpc : n.sessions moved = some (.observe env))
    (h : n.sessions id = some (.observe env')) :
    n'.sessions id = some (.observe env')
      ∨ ∃ now', BroadcastEvent.observed moved env now
        = .observed id env' now' := by
  by_cases hid : id = moved
  · rw [hid, hpc] at h
    cases h
    exact Or.inr ⟨now, by rw [hid]⟩
  · exact Or.inl ((hother id hid).trans h)

/-- Under Open everyone registered gets it, but the source. -/
theorem FirstInv.fanout_all (h : FirstInv n) (id : SessionId) :
    n.fanoutBroadcast id .openAll
      = allBut id.peer (registeredPeers n.log id.endpoint) := by
  funext peer
  unfold BroadcastNode.fanoutBroadcast allBut
  rw [h.registry]
  simp [BroadcastNode.propagates]

/-- A fan-out is owed still once the policy is read. -/
theorem FirstInv.owed_reads (h : FirstInv n) {id id' : SessionId}
    {env env' : Envelope P} {seenAt now : Nat}
    (hpc : n.sessions id = some (.readPolicy env seenAt))
    (howed : Owed n id' env' now) :
    Owed (n.goOn id (.fanOut env seenAt n.gossipPolicy)) id' env' now := by
  by_cases hid : id' = id
  · subst hid
    rcases howed with howed | howed
    · rw [hpc] at howed
      cases howed
      refine Or.inr ((Table.insert_self _ _ _).trans ?_)
      rw [h.policy]
    · rw [hpc] at howed
      cases howed
  · exact howed.of_eq (elsewhere_insert rfl id' hid)

/-- And once another's is made; or it is made itself. -/
theorem FirstInv.owed_fans (h : FirstInv n) {id id' : SessionId}
    {env env' : Envelope P} {seenAt now : Nat} {policy : GossipPropagation}
    (hpc : n.sessions id = some (.fanOut env seenAt policy))
    (hsessions : n'.sessions = n.sessions.insert id .serve)
    (howed : Owed n id' env' now) :
    Owed n' id' env' now
      ∨ BroadcastEvent.fannedOut id env seenAt (n.fanoutBroadcast id policy)
        = .fannedOut id' env' now
          (allBut id'.peer (registeredPeers n.log id'.endpoint)) := by
  by_cases hid : id' = id
  · subst hid
    unfold Owed at howed
    rw [hpc] at howed
    rcases howed with howed | howed
    · cases howed
    · cases howed
      right
      rw [h.fanout_all]
  · exact Or.inl (howed.of_eq (elsewhere_insert hsessions id' hid))

theorem firstInv_move (hkeys : KeysPut n) (h : FirstInv n) (hmove : Move n n') :
    FirstInv n' := by
  cases hmove with
  | quiet clock sessions gossip active log policy =>
      have hpolicy : n'.gossipPolicy = .openAll :=
        policy.elim (·.trans h.policy) id
      apply h.silent hpolicy active log
      · intro id env hpc
        rw [sessions]
        exact hpc
      · exact fun id _ _ howed => howed.of_eq (congrFun sessions id)
  | @begins id gates hnone =>
      apply h.record
      · rfl
      · exact h.policy
      · rw [registeredPeers, ← h.registry]
      · exact fun _ _ hpc =>
          Or.inl (observing_moved (elsewhere_insert rfl) (by simp [hnone]) hpc)
      · simp
      · exact fun _ _ _ howed => Or.inl
          (owed_moved (elsewhere_insert rfl) (by simp [Owed, hnone]) howed)
      · simp
  | @passes id env gates hserve =>
      apply h.record
      · rfl
      · exact h.policy
      · exact h.registry
      · exact fun _ _ hpc =>
          Or.inl (observing_moved (elsewhere_insert rfl) (by simp [hserve]) hpc)
      · intro id' env' heq
        cases heq
        exact Table.insert_self _ _ _
      · exact fun _ _ _ howed => Or.inl
          (owed_moved (elsewhere_insert rfl) (by simp [Owed, hserve]) howed)
      · simp
  | @first id env hpc hnew =>
      apply h.record
      · rfl
      · exact h.policy
      · exact h.registry
      · exact fun _ _ hpc' => observing_asked (elsewhere_insert rfl) hpc hpc'
      · simp
      · exact fun _ _ _ howed => Or.inl
          (owed_moved (elsewhere_insert rfl) (by simp [Owed, hpc]) howed)
      · intro id' env' now heq _
        cases heq
        exact Or.inl (Table.insert_self _ _ _)
  | @again id env hpc hseen =>
      apply h.record
      · rfl
      · exact h.policy
      · exact h.registry
      · exact fun _ _ hpc' => observing_asked (elsewhere_insert rfl) hpc hpc'
      · simp
      · exact fun _ _ _ howed => Or.inl
          (owed_moved (elsewhere_insert rfl) (by simp [Owed, hpc]) howed)
      · -- what is not new to the map was put to it
        intro id' env' now heq hfresh
        cases heq
        cases hget : (n.gossip.sweep n.clock).get (replayKey env) with
        | none =>
            rw [observe_fst.mpr hget] at hseen
            cases hseen
        | some t => exact absurd (hkeys _ t (get_of_sweep hget)) hfresh
  | @reads id env seenAt hpc =>
      apply h.silent
      · exact h.policy
      · rfl
      · rfl
      · exact fun _ _ hpc' =>
          observing_moved (elsewhere_insert rfl) (by simp [hpc]) hpc'
      · exact fun _ _ _ howed => h.owed_reads hpc howed
  | @fans id env seenAt policy hpc =>
      apply h.record
      · rfl
      · exact h.policy
      · exact h.registry
      · exact fun _ _ hpc' =>
          Or.inl (observing_moved (elsewhere_insert rfl) (by simp [hpc]) hpc')
      · simp
      · exact fun _ _ _ howed => h.owed_fans hpc rfl howed
      · simp
  | @ends id gates hserve =>
      apply h.silent
      · exact h.policy
      · rfl
      · rfl
      · exact fun _ _ hpc =>
          observing_moved (elsewhere_erase rfl) (by simp [hserve]) hpc
      · exact fun _ _ _ howed =>
          owed_moved (elsewhere_erase rfl) (by simp [Owed, hserve]) howed
  | @cleans id =>
      apply h.record
      · rfl
      · exact h.policy
      · rw [registeredPeers, ← h.registry]
      · exact fun _ _ hpc => Or.inl hpc
      · simp
      · exact fun _ _ _ howed => Or.inl howed
      · simp

end first

-- ============================================================= only once

section once

variable {n n' : BroadcastNode P}

/-- The fan-out a loop owes. -/
def owes : BroadcastPc P → Option (Key × Nat)
  | .readPolicy env seenAt => some (replayKey env, seenAt)
  | .fanOut env seenAt _ => some (replayKey env, seenAt)
  | _ => none

/-- The fan-out a session's loop owes. -/
def owing (n : BroadcastNode P) (id : SessionId) : Option (Key × Nat) :=
  (n.sessions id).bind owes

/-- The map holds the key since no earlier, or it was large enough to have
forgotten it by now. -/
def KeptOrForgotten (n : BroadcastNode P) (x : Key × Nat) : Prop :=
  (∃ t, n.gossip.dedup.get x.1 = some t ∧ x.2 ≤ t)
    ∨ x.2 + dedupTtlSecs ≤ n.clock
      ∧ maxDedupEntries ≤ (putKeys n.log).toFinset.card

structure OnceInv (n : BroadcastNode P) : Prop where
  done : ∀ x ∈ fanOuts n.log, KeptOrForgotten n x
  due : ∀ id x, owing n id = some x → KeptOrForgotten n x
  logged : (fanOuts n.log).Pairwise (FarApart n.log)
  owed : ∀ id x, owing n id = some x → ∀ y ∈ fanOuts n.log, FarApart n.log x y
  both : ∀ id id' x y, id ≠ id' → owing n id = some x → owing n id' = some y →
    FarApart n.log x y

theorem onceInv_start (caches : Address → ReplayCache) :
    OnceInv (BroadcastNode.start caches : BroadcastNode P) where
  done := by
    intro x h
    cases h
  due := by
    intro id x h
    cases h
  logged := List.Pairwise.nil
  owed := by
    intro id x h
    cases h
  both := by
    intro id id' x y _ h
    cases h

theorem FarApart.symm {log : List (BroadcastEvent P)} {x y : Key × Nat}
    (h : FarApart log x y) : FarApart log y x :=
  fun heq => (h heq.symm).imp_left Or.symm

theorem FarApart.cons {log : List (BroadcastEvent P)} {x y : Key × Nat}
    (e : BroadcastEvent P) (h : FarApart log x y) : FarApart (e :: log) x y :=
  fun heq => (h heq).imp_right fun hmany =>
    hmany.trans (card_putKeys_cons log e)

/-- What is not in the map any more was there long ago. -/
theorem KeptOrForgotten.forgotten (h : KeysPut n) {x : Key × Nat}
    (hx : KeptOrForgotten n x)
    (hgone : (n.gossip.sweep n.clock).get x.1 = none) :
    x.2 + dedupTtlSecs ≤ n.clock
      ∧ maxDedupEntries ≤ (putKeys n.log).toFinset.card := by
  rcases hx with ⟨t, hget, hle⟩ | hx
  · rcases @sweep_get_some n.gossip n.clock t x.1 hget with
      hkept | ⟨-, hold, hlarge⟩
    · rw [hgone] at hkept
      cases hkept
    · exact ⟨by omega, hlarge.trans h.rows_le⟩
  · exact hx

/-- The map is asked once more. -/
theorem KeptOrForgotten.observe (h : KeysPut n) {x : Key × Nat}
    {id : SessionId} {env : Envelope P} (hx : KeptOrForgotten n x)
    (hclock : n'.clock = n.clock)
    (hgossip : n'.gossip = (n.gossip.observe env n.clock).2)
    (hlog : n'.log = .observed id env n.clock :: n.log) :
    KeptOrForgotten n' x := by
  unfold KeptOrForgotten
  rw [hclock, hgossip, hlog]
  have hmore := card_putKeys_cons n.log (.observed id env n.clock)
  rcases hx with ⟨t, hget, hle⟩ | ⟨hold, hmany⟩
  · rcases @sweep_get_some n.gossip n.clock t x.1 hget with
      hkept | ⟨-, hold, hlarge⟩
    · refine Or.inl ⟨t, ?_, hle⟩
      rw [observe_get]
      split
      case isTrue hk => rw [← hk, hkept, Option.getD_some]
      case isFalse => exact hkept
    · exact Or.inr ⟨by omega, (hlarge.trans h.rows_le).trans hmore⟩
  · exact Or.inr ⟨hold, hmany.trans hmore⟩

/-- No fan-out comes up, and none is made. -/
theorem OnceInv.same (h : OnceInv n) (hclock : n.clock ≤ n'.clock)
    (hgossip : n'.gossip = n.gossip) (hput : putKeys n'.log = putKeys n.log)
    (hfan : fanOuts n'.log = fanOuts n.log)
    (howing : ∀ id, owing n' id = owing n id) : OnceInv n' := by
  have hkept : ∀ x, KeptOrForgotten n x → KeptOrForgotten n' x := by
    intro x hx
    unfold KeptOrForgotten at hx ⊢
    rw [hgossip, hput]
    exact hx.imp_right fun hx => ⟨hx.1.trans hclock, hx.2⟩
  have hfar : FarApart n'.log = FarApart n.log := by
    funext x y
    unfold FarApart
    rw [hput]
  refine ⟨?_, ?_, ?_, ?_, ?_⟩
  · rw [hfan]
    exact fun x hx => hkept x (h.done x hx)
  · intro id x hx
    rw [howing] at hx
    exact hkept x (h.due id x hx)
  · rw [hfan, hfar]
    exact h.logged
  · intro id x hx
    rw [howing] at hx
    rw [hfan, hfar]
    exact h.owed id x hx
  · intro id id' x y hne hx hy
    rw [howing] at hx hy
    rw [hfar]
    exact h.both id id' x y hne hx hy

theorem owing_insert {id id' : SessionId} {pc : BroadcastPc P}
    (hsessions : n'.sessions = n.sessions.insert id pc) :
    owing n' id' = if id' = id then owes pc else owing n id' := by
  unfold owing
  rw [hsessions, Table.insert_apply]
  split
  · rfl
  · rfl

theorem owing_erase {id id' : SessionId}
    (hsessions : n'.sessions = n.sessions.erase id) :
    owing n' id' = if id' = id then none else owing n id' := by
  unfold owing
  rw [hsessions, Table.erase_apply]
  split
  · rfl
  · rfl

/-- A loop that goes on owing what it owed. -/
theorem owing_same {id : SessionId} {pc : BroadcastPc P}
    (hsessions : n'.sessions = n.sessions.insert id pc)
    (hpc : owing n id = owes pc) (id' : SessionId) :
    owing n' id' = owing n id' := by
  rw [owing_insert hsessions]
  split
  case isTrue hid => rw [hid, hpc]
  case isFalse => rfl

/-- A key that is not new to the map: nothing is owed for it. -/
theorem OnceInv.again (hkeys : KeysPut n) (h : OnceInv n) {id : SessionId}
    {env : Envelope P} (hclock : n'.clock = n.clock)
    (hgossip : n'.gossip = (n.gossip.observe env n.clock).2)
    (hlog : n'.log = .observed id env n.clock :: n.log)
    (howing : ∀ id, owing n' id = owing n id) : OnceInv n' := by
  have hfan : fanOuts n'.log = fanOuts n.log := by
    rw [hlog]
    rfl
  have hfar : ∀ {x y}, FarApart n.log x y → FarApart n'.log x y := by
    rw [hlog]
    exact FarApart.cons _
  refine ⟨?_, ?_, ?_, ?_, ?_⟩
  · rw [hfan]
    exact fun x hx => (h.done x hx).observe hkeys hclock hgossip hlog
  · intro id x hx
    rw [howing] at hx
    exact (h.due id x hx).observe hkeys hclock hgossip hlog
  · rw [hfan]
    exact h.logged.imp hfar
  · intro id x hx y hy
    rw [howing] at hx
    rw [hfan] at hy
    exact hfar (h.owed id x hx y hy)
  · intro id id' x y hne hx hy
    rw [howing] at hx hy
    exact hfar (h.both id id' x y hne hx hy)

/-- A key that is new to the map: what went before is far apart from it. -/
theorem OnceInv.first (hkeys : KeysPut n) (h : OnceInv n) {id : SessionId}
    {env : Envelope P} (hclock : n'.clock = n.clock)
    (hgossip : n'.gossip = (n.gossip.observe env n.clock).2)
    (hlog : n'.log = .observed id env n.clock :: n.log)
    (hsessions : n'.sessions = n.sessions.insert id (.readPolicy env n.clock))
    (hnew : (n.gossip.observe env n.clock).1 = true) : OnceInv n' := by
  have hfan : fanOuts n'.log = fanOuts n.log := by
    rw [hlog]
    rfl
  have hfar : ∀ {x y}, FarApart n.log x y → FarApart n'.log x y := by
    rw [hlog]
    exact FarApart.cons _
  have hold : ∀ x, KeptOrForgotten n x → KeptOrForgotten n' x :=
    fun x hx => hx.observe hkeys hclock hgossip hlog
  have hbefore : ∀ x, KeptOrForgotten n x →
      FarApart n'.log (replayKey env, n.clock) x := by
    intro x hx
    apply hfar
    intro heq
    have hgone := observe_fst.mp hnew
    rw [show replayKey env = x.1 from heq] at hgone
    obtain ⟨hlong, hmany⟩ := hx.forgotten hkeys hgone
    exact ⟨Or.inr hlong, hmany⟩
  refine ⟨?_, ?_, ?_, ?_, ?_⟩
  · rw [hfan]
    exact fun x hx => hold x (h.done x hx)
  · intro id' x hx
    rw [owing_insert hsessions] at hx
    split at hx
    case isFalse => exact hold x (h.due id' x hx)
    case isTrue =>
      cases hx
      refine Or.inl ⟨n.clock, ?_, Nat.le_refl _⟩
      rw [hgossip, observe_get, if_pos rfl, observe_fst.mp hnew]
      rfl
  · rw [hfan]
    exact h.logged.imp hfar
  · intro id' x hx y hy
    rw [hfan] at hy
    rw [owing_insert hsessions] at hx
    split at hx
    case isFalse => exact hfar (h.owed id' x hx y hy)
    case isTrue =>
      cases hx
      exact hbefore y (h.done y hy)
  · intro id₁ id₂ x y hne hx hy
    rw [owing_insert hsessions] at hx hy
    split at hx
    case isTrue hid₁ =>
      cases hx
      rw [if_neg (hid₁ ▸ hne.symm)] at hy
      exact hbefore y (h.due id₂ y hy)
    case isFalse =>
      split at hy
      case isTrue =>
        cases hy
        exact (hbefore x (h.due id₁ x hx)).symm
      case isFalse => exact hfar (h.both id₁ id₂ x y hne hx hy)

/-- What was owed is fanned out. -/
theorem OnceInv.fans (h : OnceInv n) {id : SessionId} {x : Key × Nat}
    (hclock : n'.clock = n.clock) (hgossip : n'.gossip = n.gossip)
    (hput : putKeys n'.log = putKeys n.log)
    (hfan : fanOuts n'.log = x :: fanOuts n.log)
    (hdue : owing n id = some x)
    (howing : ∀ id', owing n' id' = if id' = id then none else owing n id') :
    OnceInv n' := by
  have hkept : ∀ y, KeptOrForgotten n y → KeptOrForgotten n' y := by
    intro y hy
    unfold KeptOrForgotten
    rw [hgossip, hput, hclock]
    exact hy
  have hfar : FarApart n'.log = FarApart n.log := by
    funext x y
    unfold FarApart
    rw [hput]
  refine ⟨?_, ?_, ?_, ?_, ?_⟩
  · intro y hy
    rw [hfan] at hy
    rcases List.mem_cons.mp hy with rfl | hy
    · exact hkept y (h.due id y hdue)
    · exact hkept y (h.done y hy)
  · intro id' y hy
    rw [howing, Option.ite_none_left_eq_some] at hy
    exact hkept y (h.due id' y hy.2)
  · rw [hfan, hfar]
    exact List.pairwise_cons.mpr ⟨h.owed id x hdue, h.logged⟩
  · intro id' y hy z hz
    rw [howing, Option.ite_none_left_eq_some] at hy
    rw [hfan] at hz
    rw [hfar]
    rcases List.mem_cons.mp hz with rfl | hz
    · exact h.both id' id y z hy.1 hy.2 hdue
    · exact h.owed id' y hy.2 z hz
  · intro id₁ id₂ y z hne hy hz
    rw [howing, Option.ite_none_left_eq_some] at hy hz
    rw [hfar]
    exact h.both id₁ id₂ y z hne hy.2 hz.2

theorem onceInv_move (hkeys : KeysPut n) (h : OnceInv n) (hmove : Move n n') :
    OnceInv n' := by
  cases hmove with
  | quiet clock sessions gossip active log policy =>
      refine h.same clock gossip (by rw [log]) (by rw [log]) ?_
      intro id
      unfold owing
      rw [sessions]
  | @begins id gates hnone =>
      refine h.same (Nat.le_refl _) rfl rfl rfl ?_
      exact owing_same rfl (by rw [owing, hnone]; rfl)
  | @passes id env gates hserve =>
      refine h.same (Nat.le_refl _) rfl rfl rfl ?_
      exact owing_same rfl (by rw [owing, hserve]; rfl)
  | @first id env hpc hnew => exact h.first hkeys rfl rfl rfl rfl hnew
  | @again id env hpc hseen =>
      refine h.again hkeys rfl rfl rfl ?_
      exact owing_same rfl (by rw [owing, hpc]; rfl)
  | @reads id env seenAt hpc =>
      refine h.same (Nat.le_refl _) rfl rfl rfl ?_
      exact owing_same rfl (by rw [owing, hpc]; rfl)
  | @fans id env seenAt policy hpc =>
      refine h.fans rfl rfl rfl rfl (by rw [owing, hpc]; rfl) ?_
      exact fun id' => @owing_insert _ n _ id id' .serve rfl
  | @ends id gates hserve =>
      refine h.same (Nat.le_refl _) rfl rfl rfl ?_
      intro id'
      rw [@owing_erase _ n _ id id' rfl]
      split
      case isTrue hid =>
        rw [hid, owing, hserve]
        rfl
      case isFalse => rfl
  | @cleans id => exact h.same (Nat.le_refl _) rfl rfl rfl fun _ => rfl

end once

-- ================================================================ the runs

section runs

variable [DecidableEq P]

/-- Nobody waits for another behind the gates. -/
theorem behind_gates_goes_on {n : BroadcastNode P} {id : SessionId}
    {pc : BroadcastPc P} (hpc : n.sessions id = some pc)
    (hbehind : pc ≠ .serve) :
    (broadcastStep n (nextAction id pc)).isSome = true := by
  cases pc with
  | serve => exact absurd rfl hbehind
  | observe env => simp [nextAction, broadcastStep, hpc]
  | readPolicy env seenAt => simp [nextAction, broadcastStep, hpc]
  | fanOut env seenAt policy => simp [nextAction, broadcastStep, hpc]

/-- What holds in every run under Open. -/
structure BroadcastInv (n : BroadcastNode P) : Prop where
  gates : GatesInv n
  keys : KeysPut n
  first : FirstInv n
  once : OnceInv n

theorem broadcastInv_step {n n' : BroadcastNode P} {a : BroadcastAction P}
    (hopen : StaysOpen a) (h : BroadcastInv n)
    (hstep : broadcastStep n a = some n') : BroadcastInv n' where
  gates := gatesInv_step h.gates hstep
  keys := keysPut_move h.keys (move_of_step hopen h.gates hstep)
  first := firstInv_move h.keys h.first (move_of_step hopen h.gates hstep)
  once := onceInv_move h.keys h.once (move_of_step hopen h.gates hstep)

/-- In every state of every run under Open, what is first at the node was
fanned out at its endpoint, or is about to be, and nothing twice before the
map has forgotten it. -/
theorem broadcasts_fanned_out_once {caches : Address → ReplayCache}
    {actions : List (BroadcastAction P)} {n : BroadcastNode P}
    (hopen : ∀ a ∈ actions, StaysOpen a)
    (hrun : run broadcastStep (.start caches) actions = some n) :
    FannedOutOnce n := by
  have hinv : BroadcastInv n := by
    refine run_induct (fun n a n' hok h hstep => broadcastInv_step hok h hstep)
      (along_of_forall _ actions fun a ha _ => hopen a ha) ?_ hrun
    exact ⟨gatesInv_start caches, keysPut_start caches, firstInv_start caches,
      onceInv_start caches⟩
  exact ⟨hinv.first.put, hinv.first.fanned, hinv.once.logged,
    fun _ _ => behind_gates_goes_on⟩

end runs

-- ========================================================== two endpoints

/-- A session of a peer with a hosted side. -/
def announceSession (side peer : UInt8) : SessionId :=
  ⟨Bytes.fill 32 side, Bytes.fill 32 peer, 0⟩

/-- An announcement of the side 9, at second 5. -/
def announcement : Envelope (List UInt8) :=
  ⟨⟨0x65⟩, Bytes.fill 32 9, none, 5, Bytes.fill _ 7, []⟩

/-- It comes on a session, and the loop is done with it. -/
def announced (id : SessionId) : List (BroadcastAction (List UInt8)) :=
  [.gates (.accept id announcement), .gates (.meter id announcement (some 5)),
    .gates (.check id announcement (some 5) .listed), .observe id]

/-- Two peers at each of the sides 1 and 2; the announcement comes to side 1
and is fanned out there. -/
def announcedOnce : List (BroadcastAction (List UInt8)) :=
  [.tick 5, .register (announceSession 1 3), .register (announceSession 1 4),
    .register (announceSession 2 5), .register (announceSession 2 6)]
    ++ announced (announceSession 1 3)
    ++ [.readPolicy (announceSession 1 3), .fanOut (announceSession 1 3)]

/-- The sessions a peer got something on. -/
def sentTo (peer : Address) : BroadcastEvent P → Option SessionId
  | .fannedOut _ _ _ connections => connections peer
  | _ => none

theorem announcedOnce_sends :
    (run broadcastStep (.start fun _ => .new) announcedOnce).any
      (fun n => decide (n.log.filterMap (sentTo (Bytes.fill 32 4))
        = [announceSession 1 4])) = true := by
  decide +kernel

/-- The other peer of side 1 gets it, once. -/
theorem broadcasts_fanned_out_once_announced :
    ∃ n, run broadcastStep (.start fun _ => .new) announcedOnce = some n
      ∧ n.log.filterMap (sentTo (Bytes.fill 32 4)) = [announceSession 1 4]
      ∧ FannedOutOnce n := by
  obtain ⟨n, hrun, hsent⟩ := run_checked announcedOnce_sends
  refine ⟨n, hrun, hsent, broadcasts_fanned_out_once ?_ hrun⟩
  simp [announcedOnce, announced, StaysOpen]

-- ===================================================== not per endpoint

/-- What got through the gates, by endpoint and key. -/
def passedAt : BroadcastEvent P → Option (Address × Key)
  | .passed id env => some (id.endpoint, replayKey env)
  | _ => none

/-- What was fanned out, by endpoint and key. -/
def fannedAt : BroadcastEvent P → Option (Address × Key)
  | .fannedOut id env _ _ => some (id.endpoint, replayKey env)
  | _ => none

/-- The announcement comes to side 2 as well. -/
def announcedTwice : List (BroadcastAction (List UInt8)) :=
  announcedOnce ++ announced (announceSession 2 5)

theorem announcedTwice_checked :
    (run broadcastStep (.start fun _ => .new) announcedTwice).any
      (fun n => decide (n.log.filterMap passedAt
          = [((announceSession 2 5).endpoint, replayKey announcement),
            ((announceSession 1 3).endpoint, replayKey announcement)]
        ∧ n.log.filterMap fannedAt
          = [((announceSession 1 3).endpoint, replayKey announcement)]
        ∧ n.activeGossip (announceSession 2 6).endpoint
            (announceSession 2 6).peer
          = some (announceSession 2 6)
        ∧ n.sessions (announceSession 2 5) = some .serve)) = true := by
  decide +kernel

-- ============================================================== the flood

/-- The session they come on. -/
def floodSession : SessionId := announceSession 1 3

/-- The other peer of the side. -/
def floodListener : SessionId := announceSession 1 4

/-- What a peer was sent, by its key. -/
def toldTo (peer : Address) : BroadcastEvent P → Option Key
  | .fannedOut _ env _ connections =>
      (connections peer).map fun _ => replayKey env
  | _ => none

/-- The sides that broadcast. -/
def floodSigner (j : Nat) : Address :=
  ⟨UInt8.ofNat (j / 256) :: UInt8.ofNat (j % 256) :: List.replicate 30 0, rfl⟩

/-- An announcement of one, stamped ten minutes ahead. -/
def floodEnvelope (j : Nat) : Envelope (List UInt8) :=
  ⟨⟨0x65⟩, floodSigner j, none, 600, Bytes.fill _ 7, []⟩

def floodKey (j : Nat) : Key := replayKey (floodEnvelope j)

theorem floodKey_injective {i j : Nat} (hi : i < 65536) (hj : j < 65536)
    (h : floodKey i = floodKey j) : i = j := by
  have hsigner := congrArg (fun k => k.fromSide.val) h
  simp only [floodKey, replayKey, floodEnvelope, floodSigner,
    List.cons.injEq] at hsigner
  obtain ⟨hhigh, hlow, -⟩ := hsigner
  have hhigh := congrArg UInt8.toNat hhigh
  have hlow := congrArg UInt8.toNat hlow
  simp only [UInt8.toNat_ofNat'] at hhigh hlow
  omega

/-- After `k` of them, all in second 0. -/
structure Filled (k : Nat) (n : BroadcastNode (List UInt8)) : Prop where
  clock : n.clock = 0
  policy : n.gossipPolicy = .openAll
  serving : n.sessions floodSession = some .serve
  reading : n.gates.sessions floodSession = some .accept
  table : n.gates.reputation.policy = .default
  fresh : ∀ p rep, n.gates.reputation.inner p = some rep →
    rep.refused = false ∧ rep.lastRefillAt = 0
  unseen : ∀ j, k ≤ j → j < 65536 →
    n.gates.reputation.inner (floodSigner j) = none
  ttl : (n.gates.gates floodSession.endpoint).replay.ttl = Core.defaultTtlSecs
  cap : (n.gates.gates floodSession.endpoint).replay.maxEntries
    = Core.defaultMaxEntries
  cached : (n.gates.gates floodSession.endpoint).replay.entries
    = ((List.range k).map fun j => (floodKey j, 0)).reverse
  mapped : n.gossip.dedup.rows = (List.range k).map fun j => (floodKey j, 0)
  fanned : n.log.filterMap fannedAt
    = ((List.range k).map fun j => (floodSession.endpoint, floodKey j)).reverse
  listening : n.activeGossip floodSession.endpoint floodListener.peer
    = some floodListener
  told : n.log.filterMap (toldTo floodListener.peer)
    = ((List.range k).map floodKey).reverse

namespace Filled

variable {k : Nat} {n : BroadcastNode (List UInt8)}

theorem key_ne (hk : k < 65536) {e : Key × Nat}
    (he : e ∈ (List.range k).map fun j => (floodKey j, 0)) :
    e.1 ≠ floodKey k ∧ e.2 = 0 := by
  obtain ⟨j, hj, rfl⟩ := List.mem_map.mp he
  rw [List.mem_range] at hj
  refine ⟨fun heq => ?_, rfl⟩
  have := floodKey_injective (by omega) hk heq
  omega

/-- The next signer has its tokens. -/
theorem available (h : Filled k n) (hk : k < 65536) :
    1 ≤ n.gates.reputation.available (floodSigner k) 0 := by
  unfold ReputationTable.available ReputationTable.entry
  rw [h.unseen k (Nat.le_refl _) hk, h.table]
  decide

/-- The replay cache has all of them, and room. -/
theorem swept (h : Filled k n) :
    ((n.gates.gates floodSession.endpoint).replay.sweep 0).entries
      = ((List.range k).map fun j => (floodKey j, 0)).reverse := by
  rw [sweep_entries_of_alive, h.cached]
  intro e he
  rw [h.cached, List.mem_reverse] at he
  rw [h.ttl]
  unfold Core.defaultTtlSecs
  omega

theorem vacant (h : Filled k n) (hk : k < 65536) :
    ¬ ((n.gates.gates floodSession.endpoint).replay.sweep 0).holds
      (floodKey k) := by
  unfold ReplayCache.holds
  rw [h.swept]
  intro hheld
  obtain ⟨e, he, hkey⟩ := List.mem_map.mp hheld
  exact (key_ne hk (List.mem_reverse.mp he)).1 hkey

theorem admits (h : Filled k n) (hk : k < 65536) :
    admits (n.gates.gates floodSession.endpoint)
      ⟨floodEnvelope k, some 0, .listed⟩ = true :=
  admits_iff.mpr ⟨0, rfl, show absDiff 600 0 ≤ 900 by decide, h.vacant hk⟩

/-- The map is not swept yet. -/
theorem unswept (h : Filled k n) (hk : k < maxDedupEntries) :
    n.gossip.sweep 0 = n.gossip.dedup := by
  unfold GossipState.sweep
  rw [if_neg]
  rw [h.mapped, List.length_map, List.length_range]
  omega

theorem unmapped (h : Filled k n) (hk : k < maxDedupEntries) :
    n.gossip.dedup.get (floodKey k) = none := by
  rw [Rows.get_eq_none_iff, h.mapped]
  intro hmem
  obtain ⟨e, he, hkey⟩ := List.mem_map.mp hmem
  exact (key_ne (by unfold maxDedupEntries at hk; omega) he).1 hkey

theorem signer_ne {j : Nat} (hj : j < 65536) (hk : k < j) :
    floodSigner j ≠ floodSigner k := by
  intro heq
  have := floodKey_injective hj (by omega)
    (congrArg (fun signer => (⟨signer, Bytes.fill _ 7⟩ : Key)) heq)
  omega

/-- The gate of the side after one more. -/
theorem gate_after (n : BroadcastNode (List UInt8)) (k : Nat) :
    (afterRound n floodSession (floodEnvelope k) 0).gates.gates
        floodSession.endpoint
      = gateStep (n.gates.gates floodSession.endpoint)
        ⟨floodEnvelope k, some 0, .listed⟩ := by
  simp only [afterRound, Function.update_self]

/-- The other peer is sent what comes. -/
theorem toldTo_fannedOut (h : Filled k n) (j now : Nat) :
    toldTo floodListener.peer (.fannedOut floodSession (floodEnvelope j) now
      (n.fanoutBroadcast floodSession n.gossipPolicy)) = some (floodKey j) := by
  have hconnection : n.fanoutBroadcast floodSession n.gossipPolicy
      floodListener.peer = some floodListener := by
    rw [h.policy]
    exact h.listening
  rw [toldTo, hconnection]
  rfl

/-- One more. -/
theorem succ (h : Filled k n) (hk : k < maxDedupEntries) :
    Filled (k + 1) (afterRound n floodSession (floodEnvelope k) 0) := by
  have hsmall : k < 10000 := hk
  have hconfig := gateStep_config (n.gates.gates floodSession.endpoint)
    (⟨floodEnvelope k, some 0, .listed⟩ : Arrival (List UInt8))
  refine ⟨h.clock, h.policy, h.serving, h.reading, h.table, ?_, ?_, ?_, ?_,
    ?_, ?_, ?_, h.listening, ?_⟩
  · intro p rep hrep
    change (n.gates.reputation.set (floodSigner k) _).inner p = some rep
      at hrep
    by_cases hp : p = floodSigner k
    · rw [hp, ReputationTable.set_inner_self, Option.some.injEq] at hrep
      subst hrep
      rw [show (floodEnvelope k).fromSide = floodSigner k from rfl,
        ReputationTable.entry, h.unseen k (Nat.le_refl _) (by omega), h.table]
      exact ⟨rfl, rfl⟩
    · rw [ReputationTable.set_inner_of_ne _ _ hp] at hrep
      exact h.fresh p rep hrep
  · intro j hj hj'
    change (n.gates.reputation.set (floodSigner k) _).inner _ = none
    rw [ReputationTable.set_inner_of_ne _ _ (signer_ne hj' hj)]
    exact h.unseen j (by omega) hj'
  · rw [gate_after, hconfig.1, h.ttl]
  · rw [gate_after, hconfig.2, h.cap]
  · rw [gate_after, gateStep_entries_of_room rfl
      (show absDiff 600 0 ≤ 900 by decide) (h.vacant (by omega)), h.swept,
      List.range_succ, List.map_append, List.reverse_append]
    · rfl
    · rw [h.swept, h.cap, List.length_reverse, List.length_map,
        List.length_range]
      exact hsmall.trans (by decide)
  · change (n.gossip.observe (floodEnvelope k) 0).2.dedup.rows = _
    have hnone : (n.gossip.sweep 0).get (floodKey k) = none := by
      rw [h.unswept hk]
      exact h.unmapped hk
    unfold floodKey at hnone
    simp only [GossipState.observe, hnone]
    rw [Rows.rows_insertOrIgnore 0 hnone, h.unswept hk, h.mapped,
      List.range_succ, List.map_append]
    rfl
  · change (floodSession.endpoint, floodKey k) :: n.log.filterMap fannedAt = _
    rw [h.fanned, List.range_succ, List.map_append, List.reverse_append]
    rfl
  · have htold := h.toldTo_fannedOut k 0
    change (.fannedOut floodSession (floodEnvelope k) 0 _ :: n.log).filterMap _
      = _
    rw [List.filterMap_cons_some htold, h.told, List.range_succ,
      List.map_append, List.reverse_append]
    rfl

/-- The map knows nothing of the next one. -/
theorem new (h : Filled k n) (hk : k < maxDedupEntries) :
    (n.gossip.observe (floodEnvelope k) 0).1 = true := by
  rw [observe_fst, h.unswept hk]
  exact h.unmapped hk

/-- So it is fanned out. -/
theorem round (h : Filled k n) (hk : k < maxDedupEntries) :
    run broadcastStep n (broadcastRound floodSession (floodEnvelope k) 0)
      = some (afterRound n floodSession (floodEnvelope k) 0) := by
  have hsmall : k < 10000 := hk
  exact run_broadcastRound h.serving h.reading rfl h.policy h.clock
    (h.available (by omega)) (h.admits (by omega)) (h.new hk)

end Filled

/-- The first `k` announcements. -/
def flooded (k : Nat) : List (BroadcastAction (List UInt8)) :=
  .register floodSession :: .register floodListener
    :: (List.range k).flatMap fun j =>
      broadcastRound floodSession (floodEnvelope j) 0

theorem filled_flooded {k : Nat} (hk : k ≤ maxDedupEntries) :
    ∃ n, run broadcastStep (.start fun _ => .new) (flooded k) = some n
      ∧ Filled k n := by
  induction k with
  | zero =>
      refine ⟨_, rfl,
        ⟨rfl, rfl, rfl, rfl, rfl, ?_, ?_, rfl, rfl, rfl, rfl, rfl, rfl, rfl⟩⟩
      · intro p rep hrep
        cases hrep
      · exact fun _ _ _ => rfl
  | succ k ih =>
      obtain ⟨n, hrun, hfilled⟩ := ih (by omega)
      refine ⟨_, ?_, hfilled.succ hk⟩
      rw [flooded, List.range_succ, List.flatMap_append, ← List.cons_append,
        ← List.cons_append, run_append,
        show run broadcastStep _ (_ :: _) = some n from hrun,
        Option.bind_some, List.flatMap_singleton]
      exact hfilled.round hk

-- ============================================================ ten minutes on

namespace Filled

variable {k : Nat} {n : BroadcastNode (List UInt8)}

/-- Everyone has a token again. -/
theorem available_later (h : Filled k n) (peer : Address) :
    1 ≤ n.gates.reputation.available peer 600 := by
  unfold ReputationTable.available ReputationTable.entry
  rw [h.table]
  cases hrep : n.gates.reputation.inner peer with
  | none => decide
  | some rep =>
      obtain ⟨hrefused, hrefill⟩ := h.fresh peer rep hrep
      simp [PeerReputation.available, PeerReputation.refill, hrefused, hrefill,
        ReputationPolicy.default, defaultRefillPerSec, defaultBucketCapacity]

/-- The replay cache has forgotten them all. -/
theorem admits_later (h : Filled k n) (j : Nat) :
    Net.admits (n.gates.gates floodSession.endpoint)
      ⟨floodEnvelope j, some 600, .listed⟩ = true := by
  refine admits_iff.mpr ⟨600, rfl, show absDiff 600 600 ≤ 900 by decide, ?_⟩
  intro hheld
  obtain ⟨e, he, -⟩ := List.mem_map.mp hheld
  obtain ⟨hmem, halive⟩ := List.mem_filter.mp he
  rw [h.cached, List.mem_reverse] at hmem
  obtain ⟨j, -, rfl⟩ := List.mem_map.mp hmem
  rw [ReplayCache.alive, h.ttl] at halive
  cases halive

/-- And the map too, if it is large. -/
theorem new_later (h : Filled k n) (hlarge : maxDedupEntries ≤ k) (j : Nat) :
    (n.gossip.observe (floodEnvelope j) 600).1 = true := by
  rw [observe_fst]
  unfold GossipState.sweep
  rw [if_pos (by rwa [h.mapped, List.length_map, List.length_range]),
    Rows.get_retain, Option.filter_eq_none_iff]
  intro t hget
  have hmem := Rows.mem_of_get hget
  rw [h.mapped] at hmem
  obtain ⟨i, -, heq⟩ := List.mem_map.mp hmem
  obtain ⟨-, rfl⟩ := Prod.mk.inj heq
  decide

end Filled

/-- As many announcements as the map holds, and ten minutes later the first of
them again: the other peer is sent it twice. -/
def floodAgain : List (BroadcastAction (List UInt8)) :=
  flooded maxDedupEntries
    ++ .tick 600 :: broadcastRound floodSession (floodEnvelope 0) 600

theorem floodAgain_fans_out_twice :
    ∃ n, run broadcastStep (.start fun _ => .new) floodAgain = some n
      ∧ ¬ (n.log.filterMap fannedAt).Nodup
      ∧ ¬ (n.log.filterMap (toldTo floodListener.peer)).Nodup := by
  obtain ⟨n, hrun, hfilled⟩ := filled_flooded (Nat.le_refl maxDedupEntries)
  have htick : broadcastStep n (.tick 600) = some { n with clock := 600 } :=
    if_pos (by rw [hfilled.clock]; exact Nat.zero_le _)
  have hround := @run_broadcastRound _ _ { n with clock := 600 } floodSession
    (floodEnvelope 0) 600 hfilled.serving hfilled.reading rfl hfilled.policy
    rfl (hfilled.available_later _) (hfilled.admits_later 0)
    (hfilled.new_later (Nat.le_refl _) 0)
  have hzero : 0 ∈ List.range maxDedupEntries := by simp [maxDedupEntries]
  refine ⟨afterRound { n with clock := 600 } floodSession (floodEnvelope 0) 600,
    ?_, ?_, ?_⟩
  · rw [floodAgain, run_append, hrun, Option.bind_some, run_cons, htick,
      Option.bind_some, hround]
  · change ¬ ((floodSession.endpoint, floodKey 0)
      :: n.log.filterMap fannedAt).Nodup
    rw [hfilled.fanned, List.nodup_cons, not_and_or, not_not]
    exact .inl (List.mem_reverse.mpr (List.mem_map_of_mem hzero))
  · change ¬ ((.fannedOut floodSession (floodEnvelope 0) 600
      (n.fanoutBroadcast floodSession n.gossipPolicy)
      :: n.log).filterMap _).Nodup
    rw [List.filterMap_cons_some (hfilled.toldTo_fannedOut 0 600),
      hfilled.told, List.nodup_cons, not_and_or, not_not]
    exact .inl (List.mem_reverse.mpr (List.mem_map_of_mem hzero))

/-- A broadcast gets through the gates of side 2 for the first time and is not
fanned out there; and one is fanned out at one endpoint a second time, to a
peer that was sent it before. -/
theorem not_once_per_endpoint :
    (∃ n, run broadcastStep (.start fun _ => .new) announcedTwice = some n
        ∧ (∃ x ∈ n.log.filterMap passedAt, x ∉ n.log.filterMap fannedAt)
        ∧ n.activeGossip (announceSession 2 6).endpoint
          (announceSession 2 6).peer = some (announceSession 2 6)
        ∧ n.sessions (announceSession 2 5) = some .serve)
      ∧ ∃ n, run broadcastStep (.start fun _ => .new) floodAgain = some n
        ∧ ¬ (n.log.filterMap fannedAt).Nodup
        ∧ ¬ (n.log.filterMap (toldTo floodListener.peer)).Nodup := by
  refine ⟨?_, floodAgain_fans_out_twice⟩
  obtain ⟨n, hrun, hpassed, hfanned, hregistered, hserve⟩ :=
    run_checked announcedTwice_checked
  refine ⟨n, hrun, ⟨((announceSession 2 5).endpoint, replayKey announcement),
    ?_, ?_⟩, hregistered, hserve⟩
  · rw [hpassed]
    exact List.mem_cons_self
  · rw [hfanned]
    decide

end Sidevers.Proofs
