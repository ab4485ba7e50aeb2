/-
A node with several verses, one verse at a time.

`VerseNode.alone` is the node with everything but one verse left out. What
happens within the verse is the same there (`within_alone`); a message is,
if it is handed to the verse at all. Three of the four kinds need not be: a
fetch and a reconsent go to the default verse, and a join to the verse whose
contract had the hash when the session began, else to the default. Only a
post is always handed to the verse it names.
-/
import Sidevers.Proofs.Addressee
import Sidevers.Proofs.VerseTokens
import Mathlib.Data.Set.Function

namespace Sidevers.Proofs

open Sidevers.Core
open Sidevers.Lib
open Sidevers.Net

variable {crypto : Crypto}
  {openPost : VerseContentKey → VersePostPayload → Option (List UInt8)}

-- ============================================================ vocabulary

/-- A session as it is on a node that hosts only this verse. -/
def routingAlone (r : VerseRouting) (verse : Address) : VerseRouting where
  hosts := r.hosts.filter fun h => h.1 = verse
  index := fun hash => (r.index hash).filter fun v => v = verse
  defaultAddr := verse

/-- The node with the other verses left out. -/
def nodeAlone (verse : Address) (n : VerseNode) : VerseNode where
  hosted := n.hosted.filter fun v => v = verse
  verses := fun v => if v = verse then n.verses v else none
  sessions := fun s => (n.sessions s).map (routingAlone · verse)
  nextId := n.nextId

/-- The hash of a verse's current contract. -/
def contractHash (crypto : Crypto) (n : VerseNode) (verse : Address) :
    Option (Bytes 32) :=
  (n.verses verse).map fun w => w.host.contract.hash crypto

/-- The verse a message names: by its current contract hash, or by `to`. -/
def NamesHosted (crypto : Crypto) (n : VerseNode) (env : Envelope VerseMessage)
    (verse : Address) : Prop :=
  match env.payload with
  | .joinRequest req => contractHash crypto n verse = some req.contractHash
  | .verseReconsent recon =>
      contractHash crypto n verse = some recon.contractHash
  | .contractFetch => env.toSide = some verse
  | .versePost _ => env.toSide = some verse
  | _ => False

/-- The lowest of the hosted addresses. -/
def Lowest (n : VerseNode) (verse : Address) : Prop :=
  ∀ v ∈ n.hosted, ¬ v.val < verse.val

/-- A session that began on the first node hands the message to the verse it
names on the second. -/
def HandedOver (crypto : Crypto) (n₀ n : VerseNode)
    (env : Envelope VerseMessage) (verse : Address) : Prop :=
  match env.payload with
  | .versePost _ => True
  | .joinRequest _ => Lowest n₀ verse
      ∨ contractHash crypto n₀ verse = contractHash crypto n verse
  | _ => Lowest n₀ verse

/-- A verse moves on by itself. -/
def within (crypto : Crypto)
    (openPost : VerseContentKey → VersePostPayload → Option (List UInt8))
    (verse : Address) (n : VerseNode) (a : VerseAction) : Option VerseNode :=
  verseNodeStep crypto openPost n (.within verse a)

/-- The message, and whatever the verse does from then on, has the effect and
the answer it has on the node that hosts only that verse; the other verses
are as they were. -/
def HandledAsAlone (crypto : Crypto)
    (openPost : VerseContentKey → VersePostPayload → Option (List UInt8))
    (n : VerseNode) (session : Nat) (env : Envelope VerseMessage)
    (verse : Address) : Prop :=
  ∀ n', verseNodeStep crypto openPost n (.receive session env) = some n' →
    ∃ m', verseNodeStep crypto openPost (nodeAlone verse n)
        (.receive session env) = some m' ∧
      ∀ handling : List VerseAction,
        (run (within crypto openPost verse) n' handling).map (nodeAlone verse)
            = run (within crypto openPost verse) m' handling
          ∧ ∀ n'', run (within crypto openPost verse) n' handling = some n'' →
            ∀ v, v ≠ verse → n''.verses v = n.verses v

/-- The contracts of a node's verses. -/
def contracts (n : VerseNode) : Set ContractObject :=
  {c | ∃ v w, n.verses v = some w ∧ w.host.contract = c}

-- ==================================================== one verse at a time

theorem nodeAlone_setVerse (n : VerseNode) (verse : Address)
    (w : VerseWorld) :
    nodeAlone verse (n.setVerse verse w)
      = (nodeAlone verse n).setVerse verse w := by
  unfold nodeAlone VerseNode.setVerse
  congr 1
  funext v
  show (if v = verse then n.verses.insert verse w v else none)
    = Table.insert (fun u => if u = verse then n.verses u else none) verse w v
  by_cases hv : v = verse
  · subst hv
    rw [if_pos rfl, Table.insert_self, Table.insert_self]
  · rw [if_neg hv, Table.insert_of_ne _ _ hv, if_neg hv]

/-- Another verse's move is not seen. -/
theorem nodeAlone_setVerse_of_ne (n : VerseNode) {verse v : Address}
    (h : v ≠ verse) (w : VerseWorld) :
    nodeAlone verse (n.setVerse v w) = nodeAlone verse n := by
  unfold nodeAlone VerseNode.setVerse
  congr 1
  funext u
  show (if u = verse then n.verses.insert v w u else none)
    = if u = verse then n.verses u else none
  by_cases hu : u = verse
  · subst hu
    rw [if_pos rfl, if_pos rfl, Table.insert_of_ne _ _ (Ne.symm h)]
  · rw [if_neg hu, if_neg hu]

theorem within_alone (verse : Address) (n : VerseNode) (a : VerseAction) :
    within crypto openPost verse (nodeAlone verse n) a
      = (within crypto openPost verse n a).map (nodeAlone verse) := by
  have hverse : (nodeAlone verse n).verses verse = n.verses verse := if_pos rfl
  unfold within
  cases a with
  | openSession peer => rfl
  | receive conn env => rfl
  | _ =>
      simp only [verseNodeStep, hverse]
      cases n.verses verse with
      | none => rfl
      | some w =>
          simp only [Option.map_map, Function.comp_def, nodeAlone_setVerse]

/-- And changes no other verse. -/
theorem within_others {n n' : VerseNode} {verse v : Address}
    {a : VerseAction} (hv : v ≠ verse)
    (h : within crypto openPost verse n a = some n') :
    n'.verses v = n.verses v := by
  have hset : ∃ w, n' = n.setVerse verse w := by
    unfold within at h
    cases a with
    | openSession peer => cases h
    | receive conn env => cases h
    | _ =>
        simp only [verseNodeStep] at h
        split at h
        case h_1 => cases h
        case h_2 =>
            obtain ⟨w, -, hw⟩ := Option.map_eq_some_iff.mp h
            exact ⟨w, hw.symm⟩
  obtain ⟨w, rfl⟩ := hset
  exact Table.insert_of_ne _ _ hv

theorem run_within_alone (verse : Address) (n : VerseNode)
    (acts : List VerseAction) :
    run (within crypto openPost verse) (nodeAlone verse n) acts
      = (run (within crypto openPost verse) n acts).map (nodeAlone verse) := by
  have hstep : ∀ n a, within crypto openPost verse (nodeAlone verse n) (id a)
      = (within crypto openPost verse n a).map (nodeAlone verse) :=
    within_alone verse
  have hmap := run_map hstep n acts
  rwa [List.map_id] at hmap

theorem run_within_others {n n' : VerseNode} {verse v : Address}
    {acts : List VerseAction} (hv : v ≠ verse)
    (h : run (within crypto openPost verse) n acts = some n') :
    n'.verses v = n.verses v := by
  induction acts generalizing n with
  | nil =>
      injection h with h
      rw [h]
  | cons a acts ih =>
      rw [run_cons] at h
      obtain ⟨n₁, hstep, hrun⟩ := Option.bind_eq_some_iff.mp h
      exact (ih hrun).trans (within_others hv hstep)

-- ========================================================== the snapshot

/-- The choice of the default is the lowest address. -/
theorem lowest_foldl {l : List Address} {c d : Address}
    (h : l.foldl (fun cur addr =>
      match cur with
      | none => some addr
      | some c => if addr.val < c.val then some addr else some c) (some c)
        = some d) :
    (d = c ∨ d ∈ l) ∧ d.val ≤ c.val ∧ ∀ v ∈ l, d.val ≤ v.val := by
  induction l generalizing c with
  | nil =>
      injection h with h
      subst h
      exact ⟨.inl rfl, List.le_refl _, fun _ hv => absurd hv List.not_mem_nil⟩
  | cons addr l ih =>
      rw [List.foldl_cons] at h
      by_cases hlt : addr.val < c.val
      · simp only [hlt, ↓reduceIte] at h
        obtain ⟨hmem, hle, hall⟩ := ih h
        refine ⟨.inr ?_, List.le_trans hle (List.le_of_lt hlt), ?_⟩
        · rcases hmem with rfl | hmem
          · exact List.mem_cons_self
          · exact List.mem_cons_of_mem _ hmem
        · intro v hv
          rcases List.mem_cons.mp hv with rfl | hv
          · exact hle
          · exact hall v hv
      · simp only [hlt, ↓reduceIte] at h
        obtain ⟨hmem, hle, hall⟩ := ih h
        refine ⟨hmem.imp id (List.mem_cons_of_mem _), hle, ?_⟩
        intro v hv
        rcases List.mem_cons.mp hv with rfl | hv
        · exact List.le_trans hle (List.not_lt.mp hlt)
        · exact hall v hv

theorem lowest_eq_some {l : List Address} {d : Address}
    (h : VerseRouting.lowest l = some d) : d ∈ l ∧ ∀ v ∈ l, d.val ≤ v.val := by
  cases l with
  | nil => cases h
  | cons addr l =>
      obtain ⟨hmem, hle, hall⟩ := lowest_foldl h
      constructor
      · rcases hmem with rfl | hmem
        · exact List.mem_cons_self
        · exact List.mem_cons_of_mem _ hmem
      · intro v hv
        rcases List.mem_cons.mp hv with rfl | hv
        · exact hle
        · exact hall v hv

/-- A verse is put into `contract_hash_index`. -/
def indexVerse (crypto : Crypto) (n : VerseNode)
    (index : Table (Bytes 32) Address) (v : Address) :
    Table (Bytes 32) Address :=
  match n.verses v with
  | some w => index.insert (w.host.contract.hash crypto) v
  | none => index

theorem indexVerse_eq_some {n : VerseNode}
    {index : Table (Bytes 32) Address} {hash : Bytes 32} {u v : Address}
    (h : indexVerse crypto n index u hash = some v) :
    index hash = some v ∨ (v = u ∧ contractHash crypto n v = some hash) := by
  unfold indexVerse at h
  cases hu : n.verses u with
  | none =>
      rw [hu] at h
      exact .inl h
  | some w =>
      rw [hu] at h
      rcases (Table.insert_eq_some_iff ..).mp h with ⟨hhash, rfl⟩ | ⟨-, hold⟩
      · refine .inr ⟨rfl, ?_⟩
        unfold contractHash
        rw [hu, Option.map_some, hhash]
      · exact .inl hold

theorem indexVerse_ne_none {n : VerseNode}
    {index : Table (Bytes 32) Address} {hash : Bytes 32} {u : Address}
    (h : index hash ≠ none ∨ contractHash crypto n u = some hash) :
    indexVerse crypto n index u hash ≠ none := by
  unfold indexVerse
  unfold contractHash at h
  cases hu : n.verses u with
  | none =>
      rw [hu] at h
      exact h.resolve_right nofun
  | some w =>
      rw [hu, Option.map_some, Option.some.injEq] at h
      exact (Table.insert_ne_none_iff ..).mpr (h.symm.imp Eq.symm id)

/-- What the index says was so. -/
theorem indexed_origin {n : VerseNode} {l : List Address}
    {index : Table (Bytes 32) Address} {hash : Bytes 32} {v : Address}
    (h : l.foldl (indexVerse crypto n) index hash = some v) :
    index hash = some v ∨ (v ∈ l ∧ contractHash crypto n v = some hash) := by
  induction l generalizing index with
  | nil => exact .inl h
  | cons u l ih =>
      rcases ih h with hold | ⟨hmem, hhash⟩
      · exact (indexVerse_eq_some hold).imp id fun ⟨hv, hhash⟩ =>
          ⟨hv ▸ List.mem_cons_self, hhash⟩
      · exact .inr ⟨List.mem_cons_of_mem _ hmem, hhash⟩

/-- And every hash there was is in it. -/
theorem indexed_held {n : VerseNode} {l : List Address}
    {index : Table (Bytes 32) Address} {hash : Bytes 32}
    (h : index hash ≠ none ∨ ∃ v ∈ l, contractHash crypto n v = some hash) :
    l.foldl (indexVerse crypto n) index hash ≠ none := by
  induction l generalizing index with
  | nil => exact h.resolve_right fun ⟨_, hmem, _⟩ => List.not_mem_nil hmem
  | cons u l ih =>
      refine ih ?_
      rcases h with hheld | ⟨v, hmem, hhash⟩
      · exact .inl (indexVerse_ne_none (.inl hheld))
      · rcases List.mem_cons.mp hmem with rfl | hmem
        · exact .inl (indexVerse_ne_none (.inr hhash))
        · exact .inr ⟨v, hmem, hhash⟩

theorem lookup_filterMap {l : List Address} {f : Address → Option ConnId}
    {v : Address} {conn : ConnId} (hmem : v ∈ l) (hconn : f v = some conn) :
    (l.filterMap fun u => (f u).map fun c => (u, c)).lookup v = some conn := by
  induction l with
  | nil => cases hmem
  | cons u l ih =>
      by_cases hu : u = v
      · subst hu
        rw [List.filterMap_cons_some (by rw [hconn]; rfl)]
        exact List.lookup_cons_self
      · have hmem := (List.mem_cons.mp hmem).resolve_left (Ne.symm hu)
        cases hf : f u with
        | none =>
            rw [List.filterMap_cons_none (by rw [hf]; rfl)]
            exact ih hmem
        | some c =>
            rw [List.filterMap_cons_some (by rw [hf]; rfl), List.lookup_cons,
              beq_false_of_ne (Ne.symm hu)]
            exact ih hmem

/-- What a session that begins on a node takes. -/
theorem snapshot_eq {n : VerseNode} {r : VerseRouting}
    (h : n.snapshot crypto = some r) :
    VerseRouting.lowest n.hosted = some r.defaultAddr
      ∧ r.index = n.hosted.foldl (indexVerse crypto n) .empty
      ∧ r.hosts = n.hosted.filterMap fun v =>
        ((n.verses v).map (·.nextId)).map fun c => (v, c) := by
  obtain ⟨d, hd, rfl⟩ := Option.map_eq_some_iff.mp h
  refine ⟨hd, rfl, ?_⟩
  simp only [Option.map_map, Function.comp_def]

/-- What a step does to a node. -/
inductive NodeMove (crypto : Crypto)
    (openPost : VerseContentKey → VersePostPayload → Option (List UInt8))
    (n : VerseNode) : VerseNode → Prop where
  | same : NodeMove crypto openPost n n
  | hosted (contract : ContractObject) (h : n.verses contract.verse = none) :
      NodeMove crypto openPost n
        { n.setVerse contract.verse (.init (.new contract)) with
          hosted := n.hosted ++ [contract.verse] }
  | opened (peer : Address) (r : VerseRouting)
      (hr : n.snapshot crypto = some r) :
      NodeMove crypto openPost n
        { n with
          verses := fun v => (n.verses v).bind fun w =>
            verseStep crypto openPost w (.openSession peer)
          sessions := n.sessions.insert n.nextId r
          nextId := n.nextId + 1 }
  | moved {v : Address} {w : VerseWorld} (w' : VerseWorld)
      (hw : n.verses v = some w) : NodeMove crypto openPost n (n.setVerse v w')

theorem verseNodeStep_move {n n' : VerseNode} {a : VerseNodeAction}
    (h : verseNodeStep crypto openPost n a = some n') :
    NodeMove crypto openPost n n' := by
  cases a with
  | host contract =>
      simp only [verseNodeStep] at h
      split at h
      case h_1 => cases h
      case h_2 hnone =>
          injection h with h
          exact h ▸ .hosted contract hnone
  | openSession peer =>
      simp only [verseNodeStep] at h
      split at h
      case h_1 =>
          injection h with h
          exact h ▸ .same
      case h_2 r hr =>
          injection h with h
          exact h ▸ .opened peer r hr
  | receive session env =>
      rcases receive_cases h with rfl |
        ⟨r, v, w, conn, peer, -, -, hw, -, rfl⟩
      · exact .same
      · exact .moved _ hw
  | within v b =>
      cases b with
      | openSession => cases h
      | receive => cases h
      | _ =>
          simp only [verseNodeStep] at h
          split at h
          case h_1 => cases h
          case h_2 w hw =>
              obtain ⟨w', -, rfl⟩ := Option.map_eq_some_iff.mp h
              exact .moved w' hw

/-- The hosted verses are those the node has. -/
theorem hosted_iff {n : VerseNode}
    (hn : Reachable (verseNodeStep crypto openPost) VerseNode.init n)
    (v : Address) : v ∈ n.hosted ↔ n.verses v ≠ none := by
  refine @Reachable.induct _ _ _
    (fun n => v ∈ n.hosted ↔ n.verses v ≠ none) _ ?_ ?_ _ hn
  · exact ⟨nofun, fun h => absurd rfl h⟩
  · intro n a n' hinv hstep
    cases verseNodeStep_move hstep with
    | same => exact hinv
    | hosted contract hnone =>
        show v ∈ n.hosted ++ [contract.verse] ↔ Table.insert _ _ _ v ≠ none
        rw [Table.insert_ne_none_iff, List.mem_append, List.mem_singleton, hinv,
          or_comm]
    | opened peer r hr =>
        refine hinv.trans (not_congr ?_)
        show n.verses v = none ↔ (n.verses v).bind _ = none
        cases n.verses v with
        | none => exact ⟨fun _ => rfl, fun _ => rfl⟩
        | some w => exact ⟨nofun, nofun⟩
    | moved w' hw =>
        refine hinv.trans ((Table.insert_ne_none_iff ..).trans
          (or_iff_right_of_imp ?_)).symm
        rintro rfl
        rw [hw]
        exact Option.some_ne_none _

/-- A session keeps what it took. -/
theorem session_kept {n n' : VerseNode} {acts : List VerseNodeAction}
    {session : Nat} {r : VerseRouting}
    (hrun : run (verseNodeStep crypto openPost) n acts = some n')
    (hr : n.sessions session = some r) (hid : session < n.nextId) :
    n'.sessions session = some r := by
  induction acts generalizing n with
  | nil =>
      injection hrun with hrun
      exact hrun ▸ hr
  | cons a acts ih =>
      rw [run_cons] at hrun
      obtain ⟨n₁, hstep, hrun⟩ := Option.bind_eq_some_iff.mp hrun
      cases verseNodeStep_move hstep with
      | opened peer r' hr' =>
          refine ih hrun ?_ (Nat.lt_succ_of_lt hid)
          exact (Table.insert_of_ne _ _ (Nat.ne_of_lt hid)).trans hr
      | _ => exact ih hrun hr hid

-- =============================================================== dispatch

theorem lookup_filter {l : List (Address × ConnId)} (v : Address) :
    (l.filter fun h => h.1 = v).lookup v = l.lookup v := by
  induction l with
  | nil => rfl
  | cons h l ih =>
      obtain ⟨u, c⟩ := h
      by_cases hu : u = v
      · subst hu
        have hself : decide ((u, c).1 = u) = true := decide_eq_true rfl
        rw [List.filter_cons, if_pos hself, List.lookup_cons_self,
          List.lookup_cons_self]
      · rw [List.filter_cons_of_neg (by simpa only [decide_eq_true_eq] using hu),
          List.lookup_cons, beq_false_of_ne (Ne.symm hu), ih]

theorem mem_of_lookup {l : List (Address × ConnId)} {v : Address}
    {conn : ConnId} (h : l.lookup v = some conn) : (v, conn) ∈ l := by
  induction l with
  | nil => cases h
  | cons e l ih =>
      obtain ⟨u, c⟩ := e
      by_cases hu : u = v
      · subst hu
        rw [List.lookup_cons_self] at h
        injection h with h
        exact h ▸ List.mem_cons_self
      · rw [List.lookup_cons, beq_false_of_ne (Ne.symm hu)] at h
        exact List.mem_cons_of_mem _ (ih h)

/-- A session that waits, waits on each of its verses. -/
theorem waits_on {n : VerseNode} {r : VerseRouting}
    (hwait : n.waiting r = true) {v : Address} {conn : ConnId}
    (hconn : r.hosts.lookup v = some conn) :
    ∃ w peer, n.verses v = some w ∧ w.sessions conn = some ⟨peer, .accept⟩ := by
  have hall := List.all_eq_true.mp hwait _ (mem_of_lookup hconn)
  cases hw : n.verses v with
  | none => simp only [hw, Bool.false_eq_true] at hall
  | some w =>
      simp only [hw] at hall
      split at hall
      case h_1 peer hs => exact ⟨w, peer, rfl, hs⟩
      case h_2 => cases hall

/-- A message that is dispatched is handed to the verse it is routed to. -/
theorem receive_routed {n n' : VerseNode} {session : Nat}
    {env : Envelope VerseMessage} {r : VerseRouting}
    (hr : n.sessions session = some r)
    (h : verseNodeStep crypto openPost n (.receive session env) = some n') :
    n.waiting r = true ∧
      ((r.route env = none ∧ n' = n) ∨ ∃ d w conn w', r.route env = some d
        ∧ n.verses d = some w ∧ r.hosts.lookup d = some conn
        ∧ verseStep crypto openPost w (.receive conn env) = some w'
        ∧ n' = n.setVerse d w') := by
  simp only [verseNodeStep, hr] at h
  split at h
  case isTrue => cases h
  case isFalse hwait =>
      refine ⟨by simpa only [Bool.not_eq_true', Bool.not_eq_false] using hwait, ?_⟩
      split at h
      case h_1 hroute =>
          injection h with h
          exact .inl ⟨hroute, h.symm⟩
      case h_2 d hroute =>
          split at h
          case h_1 w conn hw hconn =>
              obtain ⟨w', hw', rfl⟩ := Option.map_eq_some_iff.mp h
              exact .inr ⟨d, w, conn, w', hroute, hw, hconn, hw', rfl⟩
          case h_2 => cases h

/-- On the node that hosts only this verse, it is handed to this one. -/
theorem receive_alone {n : VerseNode} {session : Nat}
    {env : Envelope VerseMessage} {r : VerseRouting} {v : Address}
    {conn : ConnId} {w w' : VerseWorld} (hr : n.sessions session = some r)
    (hwait : n.waiting r = true) (hconn : r.hosts.lookup v = some conn)
    (hw : n.verses v = some w)
    (hw' : verseStep crypto openPost w (.receive conn env) = some w')
    (hroute : (routingAlone r v).route env = some v) :
    verseNodeStep crypto openPost (nodeAlone v n) (.receive session env)
      = some (nodeAlone v (n.setVerse v w')) := by
  have hsession : (nodeAlone v n).sessions session = some (routingAlone r v) :=
    congrArg (Option.map (routingAlone · v)) hr
  have hverse : (nodeAlone v n).verses v = some w := (if_pos rfl).trans hw
  have hlookup : (routingAlone r v).hosts.lookup v = some conn :=
    (lookup_filter v).trans hconn
  have hwait' : (nodeAlone v n).waiting (routingAlone r v) = true := by
    refine List.all_eq_true.mpr fun h hmem => ?_
    obtain ⟨hmem, hv⟩ := List.mem_filter.mp hmem
    replace hv := of_decide_eq_true hv
    have hall := List.all_eq_true.mp hwait h hmem
    rw [hv] at hall ⊢
    rw [hw] at hall
    rwa [hverse]
  simp only [verseNodeStep, hsession, hwait', Bool.not_true, Bool.false_eq_true,
    ↓reduceIte, hroute, hverse, hlookup, hw', Option.map_some,
    nodeAlone_setVerse]

/-- A message that starts a handler is handled as on the node that hosts only
the verse iff it is routed to the verse. -/
theorem handled_iff_routed {n n' : VerseNode} {session : Nat}
    {env : Envelope VerseMessage} {r : VerseRouting} {v : Address}
    {conn : ConnId} (hr : n.sessions session = some r)
    (hstep : verseNodeStep crypto openPost n (.receive session env) = some n')
    (hconn : r.hosts.lookup v = some conn)
    (hroute : (routingAlone r v).route env = some v)
    (hhandler : ∀ w, n.verses v = some w →
      serveReceive w.host w.log.length env ≠ .accept) :
    HandledAsAlone crypto openPost n session env v ↔ r.route env = some v := by
  obtain ⟨hwait, hcases⟩ := receive_routed hr hstep
  obtain ⟨w, peer, hw, hs⟩ := waits_on hwait hconn
  have hw' : verseStep crypto openPost w (.receive conn env)
      = some { w with
          sessions := w.sessions.insert conn
            ⟨peer, serveReceive w.host w.log.length env⟩ } := by
    simp only [verseStep, hs]
  have halone := receive_alone hr hwait hconn hw hw' hroute
  constructor
  · intro hhandled
    by_contra hne
    -- the verse itself is as it was
    have hsame : nodeAlone v n' = nodeAlone v n := by
      rcases hcases with ⟨-, rfl⟩ | ⟨d, _, _, w₁, hd, -, -, -, rfl⟩
      · rfl
      · refine nodeAlone_setVerse_of_ne n ?_ w₁
        rintro rfl
        exact hne hd
    obtain ⟨m', hm', hhandling⟩ := hhandled n' hstep
    obtain ⟨heq, -⟩ := hhandling []
    rw [run_nil, run_nil, Option.map_some, Option.some.injEq, hsame] at heq
    rw [halone, Option.some.injEq, ← heq] at hm'
    have hverse := congrArg (fun m : VerseNode => m.verses v) hm'
    simp only [nodeAlone, ↓reduceIte, VerseNode.setVerse, Table.insert_self, hw,
      Option.some.injEq] at hverse
    have hsession := congrArg (fun w : VerseWorld => w.sessions conn) hverse
    simp only [Table.insert_self, hs, Option.some.injEq,
      VerseSession.mk.injEq, true_and] at hsession
    exact hhandler w hw hsession
  · intro hd n'' hn''
    rw [hstep, Option.some.injEq] at hn''
    subst hn''
    rcases hcases with ⟨hnone, -⟩ | ⟨d, w₁, conn₁, w₁', hd₁, hw₁, hconn₁, hw₁', rfl⟩
    · exact absurd (hd.symm.trans hnone) (Option.some_ne_none _)
    · rw [hd, Option.some.injEq] at hd₁
      subst hd₁
      rw [hw, Option.some.injEq] at hw₁
      rw [hconn, Option.some.injEq] at hconn₁
      subst hw₁ hconn₁
      rw [hw', Option.some.injEq] at hw₁'
      subst hw₁'
      refine ⟨_, halone, fun handling => ⟨(run_within_alone v _ handling).symm,
        fun n'' hrun u hu => ?_⟩⟩
      exact (run_within_others hu hrun).trans (Table.insert_of_ne _ _ hu)

-- ======================================================= what is handed over

theorem lowest_of_mem {l : List Address} {v : Address} (h : v ∈ l) :
    ∃ d, VerseRouting.lowest l = some d := by
  cases l with
  | nil => cases h
  | cons addr l =>
      clear h
      induction l generalizing addr with
      | nil => exact ⟨addr, rfl⟩
      | cons u l ih =>
          by_cases hlt : u.val < addr.val
          · obtain ⟨d, hd⟩ := ih u
            refine ⟨d, ?_⟩
            rw [← hd]
            simp only [VerseRouting.lowest, List.foldl_cons, hlt, ↓reduceIte]
          · obtain ⟨d, hd⟩ := ih addr
            refine ⟨d, ?_⟩
            rw [← hd]
            simp only [VerseRouting.lowest, List.foldl_cons, hlt, ↓reduceIte]

/-- The default of a session is the lowest verse. -/
theorem default_iff_lowest {n : VerseNode} {d v : Address}
    (hd : VerseRouting.lowest n.hosted = some d) (hv : v ∈ n.hosted) :
    d = v ↔ Lowest n v := by
  obtain ⟨hmem, hle⟩ := lowest_eq_some hd
  constructor
  · rintro rfl u hu
    exact List.not_lt.mpr (hle u hu)
  · intro hlow
    exact Subtype.ext (List.le_antisymm (hle v hv) (List.not_lt.mp (hlow d hmem)))

/-- A session that begins while the verse is hosted is on it. -/
theorem opened_on {n₀ n₁ : VerseNode} {peer v : Address}
    (hn : Reachable (verseNodeStep crypto openPost) VerseNode.init n₀)
    (hv : v ∈ n₀.hosted)
    (hopen : verseNodeStep crypto openPost n₀ (.openSession peer) = some n₁) :
    ∃ r conn, n₀.snapshot crypto = some r ∧ r.hosts.lookup v = some conn
      ∧ n₁.sessions n₀.nextId = some r ∧ n₀.nextId < n₁.nextId := by
  obtain ⟨d, hd⟩ := lowest_of_mem hv
  obtain ⟨r, hr⟩ : ∃ r, n₀.snapshot crypto = some r :=
    ⟨_, Option.map_eq_some_iff.mpr ⟨d, hd, rfl⟩⟩
  obtain ⟨-, -, hhosts⟩ := snapshot_eq hr
  obtain ⟨w, hw⟩ := Option.ne_none_iff_exists'.mp ((hosted_iff hn v).mp hv)
  have hconn : (n₀.verses v).map (·.nextId) = some w.nextId := by
    rw [hw, Option.map_some]
  simp only [verseNodeStep, hr, Option.some.injEq] at hopen
  subst hopen
  refine ⟨r, w.nextId, hr, ?_, Table.insert_self .., Nat.lt_succ_self _⟩
  rw [hhosts]
  exact lookup_filterMap hv hconn

theorem filter_getD_eq {o : Option Address} {v : Address}
    (h : ∀ u, o = some u → u = v) (p : Address → Bool) :
    (o.filter p).getD v = v := by
  cases o with
  | none => rfl
  | some u =>
      rw [h u rfl, Option.filter_some]
      split <;> rfl

/-- On a node that hosts only it, every message that names the verse is
handed to it. -/
theorem route_named {n : VerseNode} {env : Envelope VerseMessage}
    {r : VerseRouting} {v : Address} (hnames : NamesHosted crypto n env v) :
    (routingAlone r v).route env = some v := by
  unfold NamesHosted at hnames
  unfold VerseRouting.route
  split at hnames
  case h_1 req hp =>
      rw [hp]
      refine congrArg some (filter_getD_eq (fun u hu => ?_) _)
      obtain ⟨-, huv⟩ := Option.filter_eq_some_iff.mp hu
      exact of_decide_eq_true huv
  case h_2 recon hp =>
      rw [hp]
      rfl
  case h_3 hp =>
      rw [hp]
      rfl
  case h_4 post hp =>
      rw [hp]
      refine congrArg some (filter_getD_eq (fun u hu => ?_) _)
      exact Option.some.inj (hu.symm.trans hnames)
  case h_5 => cases hnames

/-- A message that names a verse starts a handler. -/
theorem handler_named {n : VerseNode} {env : Envelope VerseMessage}
    {v : Address} (hnames : NamesHosted crypto n env v) (h : VerseHost)
    (arrived : Nat) : serveReceive h arrived env ≠ .accept := by
  unfold NamesHosted at hnames
  unfold serveReceive
  split at hnames
  case h_5 => cases hnames
  all_goals
    rename_i hp
    rw [hp]
    nofun

theorem contractHash_eq_some {n : VerseNode} {v : Address} {hash : Bytes 32}
    (hn : Reachable (verseNodeStep crypto openPost) VerseNode.init n)
    (h : contractHash crypto n v = some hash) :
    ∃ c ∈ contracts n, c.verse = v ∧ c.hash crypto = hash := by
  obtain ⟨w, hw, rfl⟩ := Option.map_eq_some_iff.mp h
  exact ⟨_, ⟨v, w, hw, rfl⟩, (placed_of_reachable hn hw).contract, rfl⟩

/-- The message is routed to the verse it names iff it is handed over. -/
theorem route_iff_handedOver {n₀ n : VerseNode} {r : VerseRouting}
    {env : Envelope VerseMessage} {v : Address} {conn : ConnId}
    (hn₀ : Reachable (verseNodeStep crypto openPost) VerseNode.init n₀)
    (hn : Reachable (verseNodeStep crypto openPost) VerseNode.init n)
    (hinj : Set.InjOn (ContractObject.hash crypto)
      (contracts n₀ ∪ contracts n))
    (hsnap : n₀.snapshot crypto = some r) (hv : v ∈ n₀.hosted)
    (hconn : r.hosts.lookup v = some conn)
    (hnames : NamesHosted crypto n env v) :
    r.route env = some v ↔ HandedOver crypto n₀ n env v := by
  obtain ⟨hd, hindex, -⟩ := snapshot_eq hsnap
  have hlow := default_iff_lowest hd hv
  have hhosted : r.hosted v = true :=
    List.any_eq_true.mpr ⟨_, mem_of_lookup hconn, decide_eq_true rfl⟩
  unfold NamesHosted at hnames
  unfold VerseRouting.route HandedOver
  split at hnames
  case h_1 req hp =>
      rw [hp]
      show some (((r.index req.contractHash).filter r.hosted).getD r.defaultAddr)
          = some v
        ↔ Lowest n₀ v ∨ contractHash crypto n₀ v = contractHash crypto n v
      rw [hnames, Option.some.injEq]
      cases hu : r.index req.contractHash with
      | none =>
          -- no hosted verse had this hash
          have hnot : contractHash crypto n₀ v ≠ some req.contractHash := by
            intro hhash
            have hheld : n₀.hosted.foldl (indexVerse crypto n₀) .empty
                req.contractHash ≠ none :=
              indexed_held (.inr ⟨v, hv, hhash⟩)
            exact hheld (hindex ▸ hu)
          exact hlow.trans (or_iff_left hnot).symm
      | some u =>
          rw [hindex] at hu
          obtain ⟨-, hhash⟩ := (indexed_origin hu).resolve_left nofun
          -- it was this verse that had it
          obtain ⟨c, hc, rfl, hch⟩ := contractHash_eq_some hn₀ hhash
          obtain ⟨c', hc', rfl, hch'⟩ := contractHash_eq_some hn hnames
          obtain rfl := hinj (.inl hc) (.inr hc') (hch.trans hch'.symm)
          rw [Option.filter_some, if_pos hhosted, Option.getD_some]
          exact ⟨fun _ => .inr hhash, fun _ => rfl⟩
  case h_2 recon hp =>
      rw [hp]
      exact (Option.some.injEq ..).to_iff.trans hlow
  case h_3 hp =>
      rw [hp]
      exact (Option.some.injEq ..).to_iff.trans hlow
  case h_4 post hp =>
      rw [hp, hnames]
      show some (((some v).filter r.hosted).getD r.defaultAddr) = some v ↔ True
      rw [Option.filter_some, if_pos hhosted, Option.getD_some]
      exact ⟨fun _ => trivial, fun _ => rfl⟩
  case h_5 => cases hnames

theorem reachable_step {n n' : VerseNode} {a : VerseNodeAction}
    {acts : List VerseNodeAction} {n₁ : VerseNode}
    (hn : Reachable (verseNodeStep crypto openPost) VerseNode.init n)
    (hstep : verseNodeStep crypto openPost n a = some n₁)
    (hrun : run (verseNodeStep crypto openPost) n₁ acts = some n') :
    Reachable (verseNodeStep crypto openPost) VerseNode.init n' := by
  obtain ⟨before, hbefore⟩ := hn
  refine ⟨before ++ a :: acts, ?_⟩
  rw [run_append, hbefore, Option.bind_some, run_cons, hstep,
    Option.bind_some, hrun]

/-- A message on a session that began on the first node is handled as on a
node that hosts only the verse it names, iff it is handed to that verse. -/
theorem message_handled_as_alone_iff (crypto : Crypto)
    (openPost : VerseContentKey → VersePostPayload → Option (List UInt8))
    (n₀ n₁ n n' : VerseNode) (peer verse : Address)
    (acts : List VerseNodeAction) (env : Envelope VerseMessage)
    (hn₀ : Reachable (verseNodeStep crypto openPost) VerseNode.init n₀)
    (hhosted : verse ∈ n₀.hosted)
    (hopen : verseNodeStep crypto openPost n₀ (.openSession peer) = some n₁)
    (hrun : run (verseNodeStep crypto openPost) n₁ acts = some n)
    (hinj : Set.InjOn (ContractObject.hash crypto)
      (contracts n₀ ∪ contracts n))
    (hnames : NamesHosted crypto n env verse)
    (hstep : verseNodeStep crypto openPost n (.receive n₀.nextId env)
      = some n') :
    HandledAsAlone crypto openPost n n₀.nextId env verse
      ↔ HandedOver crypto n₀ n env verse := by
  have hn := reachable_step hn₀ hopen hrun
  obtain ⟨r, conn, hsnap, hconn, hr₁, hid⟩ := opened_on hn₀ hhosted hopen
  have hr := session_kept hrun hr₁ hid
  exact (handled_iff_routed hr hstep hconn (route_named hnames)
    fun w _ => handler_named hnames w.host w.log.length).trans
      (route_iff_handedOver hn₀ hn hinj hsnap hhosted hconn hnames)

-- ============================================================== a run

/-- The contract of a second verse. -/
def higher (title : String) (version : UInt64) : ContractObject :=
  { titled title version with verse := Bytes.fill _ 3 }

/-- A node hosts two verses. -/
def hostTwo : List VerseNodeAction :=
  [.host (titled "a" 1), .host (higher "b" 1)]

/-- A session on both waits for messages; the second is then amended. -/
def amendHigher : List VerseNodeAction :=
  [.within (Bytes.fill _ 1) (.tick 0 none),
    .within (Bytes.fill _ 1) (.tick 0 none),
    .within (Bytes.fill _ 3) (.tick 0 none),
    .within (Bytes.fill _ 3) (.tick 0 none),
    .within (Bytes.fill _ 3) (.amend (higher "c" 2))]

/-- The request of the side `[2; 32]` to join under the contract. -/
def joinUnder (contract : ContractObject) : Envelope VerseMessage :=
  toVerse (Bytes.fill _ 2) (.joinRequest
    ⟨contract.hash titleHash, Bytes.fill _ 2, BTreeMap.empty⟩)

theorem names_join {n : VerseNode} {env : Envelope VerseMessage}
    {req : JoinRequestPayload} {v : Address}
    (hp : env.payload = .joinRequest req)
    (hhash : contractHash crypto n v = some req.contractHash) :
    NamesHosted crypto n env v := by
  unfold NamesHosted
  rw [hp]
  exact hhash

theorem contracts_hosted {n : VerseNode} {c : ContractObject}
    (hn : Reachable (verseNodeStep crypto openPost) VerseNode.init n)
    (hc : c ∈ contracts n) :
    ∃ v ∈ n.hosted, (n.verses v).map (·.host.contract) = some c := by
  obtain ⟨v, w, hw, rfl⟩ := hc
  refine ⟨v, (hosted_iff hn v).mpr ?_, ?_⟩
  · rw [hw]
    exact Option.some_ne_none _
  · rw [hw, Option.map_some]

/-- The contracts there are, before and after the amendment. -/
theorem contracts_amended {n₀ n₁ n : VerseNode}
    (hn₀ : run (verseNodeStep titleHash fun _ _ => none) .init hostTwo
      = some n₀)
    (hopen : verseNodeStep titleHash (fun _ _ => none) n₀
      (.openSession (Bytes.fill _ 2)) = some n₁)
    (hn : run (verseNodeStep titleHash fun _ _ => none) n₁ amendHigher
      = some n) {c : ContractObject} (hc : c ∈ contracts n₀ ∪ contracts n) :
    c = titled "a" 1 ∨ c = higher "b" 1 ∨ c = higher "c" 2 := by
  have hreach₀ : Reachable (verseNodeStep titleHash fun _ _ => none) .init n₀ :=
    ⟨hostTwo, hn₀⟩
  have hreach := reachable_step hreach₀ hopen hn
  cases hn₀
  cases hopen
  cases hn
  rcases hc with hc | hc
  · obtain ⟨v, hv, hvc⟩ := contracts_hosted hreach₀ hc
    rcases List.mem_cons.mp hv with rfl | hv
    · exact .inl (Option.some.inj hvc).symm
    · obtain rfl := List.mem_singleton.mp hv
      exact .inr (.inl (Option.some.inj hvc).symm)
  · obtain ⟨v, hv, hvc⟩ := contracts_hosted hreach hc
    rcases List.mem_cons.mp hv with rfl | hv
    · exact .inl (Option.some.inj hvc).symm
    · obtain rfl := List.mem_singleton.mp hv
      exact .inr (.inr (Option.some.inj hvc).symm)

/-- The contract of the first verse is not touched, a request to join it is
handled there. -/
theorem message_handled_as_alone_lowest :
    ∃ n₀ n₁ n n',
      run (verseNodeStep titleHash fun _ _ => none) .init hostTwo = some n₀
      ∧ verseNodeStep titleHash (fun _ _ => none) n₀
        (.openSession (Bytes.fill _ 2)) = some n₁
      ∧ run (verseNodeStep titleHash fun _ _ => none) n₁ amendHigher = some n
      ∧ verseNodeStep titleHash (fun _ _ => none) n
        (.receive n₀.nextId (joinUnder (titled "a" 1))) = some n'
      ∧ HandledAsAlone titleHash (fun _ _ => none) n n₀.nextId
        (joinUnder (titled "a" 1)) (Bytes.fill _ 1) := by
  refine ⟨_, _, _, _, rfl, rfl, rfl, rfl, ?_⟩
  refine (message_handled_as_alone_iff titleHash (fun _ _ => none) _ _ _ _
    (Bytes.fill _ 2) (Bytes.fill _ 1) amendHigher _ ⟨hostTwo, rfl⟩
    List.mem_cons_self rfl rfl ?_ (names_join rfl rfl) rfl).mpr (.inr rfl)
  intro c hc c' hc' heq
  rcases contracts_amended rfl rfl rfl hc with rfl | rfl | rfl <;>
    rcases contracts_amended rfl rfl rfl hc' with rfl | rfl | rfl
  case inl.inl | inr.inl.inr.inl | inr.inr.inr.inr => rfl
  all_goals exact absurd heq (by decide)

/-- The answer of a verse declines the hash. -/
def declined (n : VerseNode) (verse : Address) : Bool :=
  match n.verses verse with
  | some w => w.log.any fun e =>
      match e with
      | .replied _ (.joinDecline d) => d.reason = "contract-version-mismatch"
      | _ => false
  | none => false

/-- A request to join the second verse, under the contract it was amended to,
is declined by the first. Alone, it makes its sender a member. -/
theorem amended_join_declined :
    ∃ n₀ n₁ n n' m',
      run (verseNodeStep titleHash fun _ _ => none) .init hostTwo = some n₀
      ∧ verseNodeStep titleHash (fun _ _ => none) n₀
        (.openSession (Bytes.fill _ 2)) = some n₁
      ∧ run (verseNodeStep titleHash fun _ _ => none) n₁ amendHigher = some n
      ∧ NamesHosted titleHash n (joinUnder (higher "c" 2)) (Bytes.fill _ 3)
      ∧ verseNodeStep titleHash (fun _ _ => none) n
        (.receive n₀.nextId (joinUnder (higher "c" 2))) = some n'
      ∧ verseNodeStep titleHash (fun _ _ => none)
        (nodeAlone (Bytes.fill _ 3) n)
        (.receive n₀.nextId (joinUnder (higher "c" 2))) = some m'
      ∧ ¬ HandledAsAlone titleHash (fun _ _ => none) n n₀.nextId
        (joinUnder (higher "c" 2)) (Bytes.fill _ 3)
      ∧ (run (within titleHash (fun _ _ => none) (Bytes.fill _ 1)) n'
        [.tick 0 (some 1), .tick 0 (some 1)]).map (declined · (Bytes.fill _ 1))
          = some true
      ∧ ((run (within titleHash (fun _ _ => none) (Bytes.fill _ 3)) m'
        [.tick 0 (some 1), .tick 0 (some 1), .tick 0 (some 1)]).bind fun m =>
          m.verses (Bytes.fill _ 3)).map (fun w =>
            (w.host.members (Bytes.fill _ 2)).isSome) = some true := by
  refine ⟨_, _, _, _, _, rfl, rfl, rfl, names_join rfl rfl, rfl, rfl, ?_,
    by decide, by decide⟩
  intro hhandled
  have hroute := (handled_iff_routed rfl rfl rfl rfl ?_).mp
    hhandled
  · exact absurd hroute (by decide)
  · intro w _ h
    cases h

end Sidevers.Proofs
