/-
A departure that retracts: which of the author's posts are in the log
afterwards.

The departure takes the author off the members, and then clears the log. A
post that passes admission in between, or later, is of a side that joined
again; one that passed before may still be on its way to the log, through the
handler that admitted it. `Retracting` is what holds from the clearing on if
none is (`retracting_step`). If one is, the run in which its handler goes on
puts it there (`retained_of_waiting`), once the key has come to the one it
opens under.
-/
import Mathlib.Tactic.IntervalCases
import Sidevers.Proofs.VerseConsents
import Sidevers.Proofs.VerseKeys

namespace Sidevers.Proofs

open Sidevers.Core
open Sidevers.Lib
open Sidevers.Net

variable {crypto : Crypto}
  {openPost : VerseContentKey → VersePostPayload → Option (List UInt8)}

-- ======================================================= the statement

/-- From the `k`th event on, the side joined. -/
def JoinedSince (k : Nat) (side : Address) (log : List VerseEvent) : Prop :=
  ∃ (i : Nat) (contractHash : Bytes 32) (how : Addition),
    k ≤ i ∧ log[i]? = some (.added side contractHash how)

/-- And its post was admitted after that. -/
def AdmittedSince (k : Nat) (side : Address) (log : List VerseEvent)
    (post : Envelope VersePostPayload) : Prop :=
  ∃ (i j : Nat) (contractHash contractHash' : Bytes 32) (how : Addition),
    k ≤ i ∧ i < j ∧ log[i]? = some (.added side contractHash how)
      ∧ log[j]? = some (.admitted post contractHash')

/-- Every post of the side in the log is such a one. -/
def Retracted (k : Nat) (side : Address) (w : VerseWorld) : Prop :=
  ∀ post ∈ w.host.posts.bucket w.host.verse side,
    AdmittedSince k side w.log post.envelope

/-- A handler is past admission with the post: it has opened it, or it opens
under the key or a later one. -/
def Waiting (openPost : VerseContentKey → VersePostPayload →
      Option (List UInt8)) (key : VerseContentKey)
    (post : Envelope VersePostPayload) (pc : ServePc) : Prop :=
  pc = .postRetain post
    ∨ pc = .postOpen post ∧ ∃ key', key ≤ key'
      ∧ openPost key' post.payload ≠ none

/-- No handler is, with a post of the side admitted before. -/
def NothingWaits (openPost : VerseContentKey → VersePostPayload →
      Option (List UInt8)) (k : Nat) (side : Address) (w : VerseWorld) :
    Prop :=
  ∀ conn peer pc post, w.sessions conn = some ⟨peer, pc⟩ →
    Waiting openPost w.host.contentKey post pc → post.fromSide = side →
      AdmittedSince k side w.log post

-- ============================================================= the log

section logs

variable {k : Nat} {side : Address} {log es : List VerseEvent}
  {post : Envelope VersePostPayload}

theorem getElem?_append_of_some {i : Nat} {e : VerseEvent}
    (h : log[i]? = some e) : (log ++ es)[i]? = some e := by
  rw [List.getElem?_append_left (List.getElem?_eq_some_iff.mp h).1]
  exact h

theorem JoinedSince.append (h : JoinedSince k side log) :
    JoinedSince k side (log ++ es) := by
  obtain ⟨i, contractHash, how, hk, hi⟩ := h
  exact ⟨i, contractHash, how, hk, getElem?_append_of_some hi⟩

theorem joinedSince_added (hk : k ≤ log.length) (contractHash : Bytes 32)
    (how : Addition) :
    JoinedSince k side (log ++ .added side contractHash how :: es) :=
  ⟨log.length, contractHash, how, hk, by simp⟩

theorem AdmittedSince.append (h : AdmittedSince k side log post) :
    AdmittedSince k side (log ++ es) post := by
  obtain ⟨i, j, contractHash, contractHash', how, hk, hij, hi, hj⟩ := h
  exact ⟨i, j, contractHash, contractHash', how, hk, hij,
    getElem?_append_of_some hi, getElem?_append_of_some hj⟩

/-- An admission is one after a join there was. -/
theorem JoinedSince.admitted (h : JoinedSince k side log)
    (contractHash : Bytes 32) :
    AdmittedSince k side (log ++ [.admitted post contractHash]) post := by
  obtain ⟨i, contractHash', how, hk, hi⟩ := h
  exact ⟨i, log.length, contractHash', contractHash, how, hk,
    (List.getElem?_eq_some_iff.mp hi).1, getElem?_append_of_some hi,
    List.getElem?_concat_length ..⟩

/-- Events that admit nothing do not make a post admitted since. -/
theorem AdmittedSince.of_append (hes : ∀ e ∈ es, admittedPost e = none)
    (h : AdmittedSince k side (log ++ es) post) :
    AdmittedSince k side log post := by
  obtain ⟨i, j, contractHash, contractHash', how, hk, hij, hi, hj⟩ := h
  have hlt : j < log.length := by
    by_contra hge
    rw [List.getElem?_append_right (Nat.not_lt.mp hge)] at hj
    exact absurd (hes _ (List.mem_of_getElem? hj)) (by simp [admittedPost])
  rw [List.getElem?_append_left (hij.trans hlt)] at hi
  rw [List.getElem?_append_left hlt] at hj
  exact ⟨i, j, contractHash, contractHash', how, hk, hij, hi, hj⟩

end logs

-- ========================================================== the handler

/-- No message leads past admission. -/
theorem serveReceive_not_waiting {h : VerseHost} {arrived : Nat}
    {env : Envelope VerseMessage} {post : Envelope VersePostPayload} :
    serveReceive h arrived env ≠ .postOpen post
      ∧ serveReceive h arrived env ≠ .postRetain post := by
  unfold serveReceive
  cases env.payload with
  | verseLeave leave =>
      dsimp only
      split
      · exact ⟨by simp, by simp⟩
      · split <;> exact ⟨by simp, by simp⟩
  | verseRemove remove =>
      dsimp only
      split <;> exact ⟨by simp, by simp⟩
  | contractFetch | joinRequest _ | versePost _ | verseReconsent _ | other =>
      exact ⟨by simp, by simp⟩

/-- A post to be opened was admitted just now. -/
theorem serveTick_opening {h : VerseHost} {peer : Address} {conn : ConnId}
    {io : Option UInt64} {pc : ServePc} {t : Tick ServePc}
    {post : Envelope VersePostPayload}
    (ht : serveTick crypto openPost h peer conn io pc = some t)
    (hnext : t.next = some (.postOpen post)) :
    ∃ version, h.admits post.fromSide version = true
      ∧ t.events = [.admitted post (h.contract.hash crypto)] := by
  cases pc with
  | accept => cases ht
  | postAdmit p version =>
      simp only [serveTick] at ht
      split at ht <;> cases ht <;> cases hnext
      exact ⟨version, ‹_›, rfl⟩
  | drain | joinCheck _ _ _ | moderate _ _ | reconsent _ _ | postOpen _ =>
      simp only [serveTick] at ht
      split at ht <;> cases ht <;> cases hnext
  | leave leave =>
      cases ht
      simp only [Tick.go, Option.some.injEq] at hnext
      split at hnext
      · cases hnext
      · split at hnext <;> cases hnext
  | remove remove =>
      cases ht
      simp only [Tick.go, Option.some.injEq] at hnext
      split at hnext <;> cases hnext
  | rotating pc =>
      cases ht
      cases pc <;> cases io <;> cases hnext
  | _ => cases io <;> cases ht <;> cases hnext

/-- A post to be stored was opened just now. -/
theorem serveTick_retaining {h : VerseHost} {peer : Address} {conn : ConnId}
    {io : Option UInt64} {pc : ServePc} {t : Tick ServePc}
    {post : Envelope VersePostPayload}
    (ht : serveTick crypto openPost h peer conn io pc = some t)
    (hnext : t.next = some (.postRetain post)) :
    pc = .postOpen post ∧ openPost h.contentKey post.payload ≠ none := by
  cases pc with
  | accept => cases ht
  | postOpen p =>
      simp only [serveTick] at ht
      split at ht <;> cases ht <;> cases hnext
      case h_2 plain hopen =>
        refine ⟨rfl, ?_⟩
        rw [hopen]
        exact Option.some_ne_none plain
  | drain | joinCheck _ _ _ | moderate _ _ | reconsent _ _ | postAdmit _ _ =>
      simp only [serveTick] at ht
      split at ht <;> cases ht <;> cases hnext
  | leave leave =>
      cases ht
      simp only [Tick.go, Option.some.injEq] at hnext
      split at hnext
      · cases hnext
      · split at hnext <;> cases hnext
  | remove remove =>
      cases ht
      simp only [Tick.go, Option.some.injEq] at hnext
      split at hnext <;> cases hnext
  | rotating pc =>
      cases ht
      cases pc <;> cases io <;> cases hnext
  | _ => cases io <;> cases ht <;> cases hnext

/-- What becomes of the stored posts. -/
inductive PostsTick (h : VerseHost) (pc : ServePc) (posts : VersePostStore) :
    Prop where
  | same (hposts : posts = h.posts)
  | retracted (author : Address)
      (hposts : posts = h.posts.retractByAuthor h.verse author)
  | retained (post : Envelope VersePostPayload) (storedAt : UInt64)
      (hpc : pc = .postRetain post)
      (hposts : posts = h.posts.addPost h.verse post.fromSide
        ⟨post, post.payload, storedAt⟩)

theorem serveTick_posts {h : VerseHost} {peer : Address} {conn : ConnId}
    {io : Option UInt64} {pc : ServePc} {t : Tick ServePc}
    (ht : serveTick crypto openPost h peer conn io pc = some t) :
    PostsTick h pc t.host.posts := by
  cases pc with
  | accept => cases ht
  | retract leave =>
      cases ht
      exact .retracted leave.side rfl
  | postRetain post =>
      cases ht
      exact .retained post _ rfl rfl
  | drain | joinCheck _ _ _ | moderate _ _ | postOpen _ | postAdmit _ _ =>
      simp only [serveTick] at ht
      split at ht <;> (cases ht; exact .same rfl)
  | reconsent fromSide contractHash =>
      simp only [serveTick] at ht
      split at ht
      case h_1 =>
        cases ht
        exact .same rfl
      case h_2 h' hr =>
        cases ht
        obtain ⟨-, -, rfl⟩ := reconsent_eq hr
        exact .same rfl
  | rotating pc =>
      cases ht
      cases pc <;> cases io <;> exact .same rfl
  | _ => cases io <;> (cases ht; exact .same rfl)

/-- A step of the verse touches them through a handler only. -/
theorem posts_step {w w' : VerseWorld} {a : VerseAction}
    (hstep : verseStep crypto openPost w a = some w') :
    w'.host.posts = w.host.posts
      ∨ ∃ conn peer pc, w.sessions conn = some ⟨peer, pc⟩
        ∧ PostsTick w.host pc w'.host.posts := by
  cases verseStep_cases hstep with
  | tick conn io peer pc t hs ht =>
      rw [applySession_host]
      exact Or.inr ⟨conn, peer, pc, hs, serveTick_posts ht⟩
  | tickRotation call io pc hr =>
      cases pc <;> cases io <;> exact Or.inl rfl
  | _ => exact Or.inl rfl

/-- The posts of an author after one more was stored. -/
theorem mem_bucket_addPost {store : VersePostStore} {verse author side : Address}
    {post q : StoredVersePost}
    (h : q ∈ (store.addPost verse author post).bucket verse side) :
    q ∈ store.bucket verse side ∨ side = author ∧ q = post := by
  unfold VersePostStore.addPost at h
  split at h
  · exact Or.inl h
  · unfold VersePostStore.bucket at h ⊢
    rw [Table.insert_apply] at h
    by_cases hside : side = author
    · subst hside
      rw [if_pos rfl] at h
      rcases List.mem_append.mp h with h | h
      · exact Or.inl h
      · exact Or.inr ⟨rfl, List.mem_singleton.mp h⟩
    · rw [if_neg (by simp [hside])] at h
      exact Or.inl h

/-- And after an author's were retracted. -/
theorem bucket_retractByAuthor (store : VersePostStore)
    (verse author side : Address) :
    (store.retractByAuthor verse author).bucket verse side
      = if side = author then [] else store.bucket verse side := by
  unfold VersePostStore.retractByAuthor VersePostStore.bucket
  rw [Table.erase_apply]
  by_cases hside : side = author <;> simp [hside]

-- ==================================================== after the clearing

/-- What holds of the departed side's membership, and of its posts from the
clearing on. -/
structure Retracting (openPost : VerseContentKey → VersePostPayload →
      Option (List UInt8)) (k : Nat) (side : Address) (w : VerseWorld) :
    Prop where
  waits : NothingWaits openPost k side w
  posts : Retracted k side w

/-- A member has joined since. -/
def MemberSince (k : Nat) (side : Address) (w : VerseWorld) : Prop :=
  k ≤ w.log.length ∧ (w.host.members side ≠ none → JoinedSince k side w.log)

section steps

variable {k : Nat} {side : Address} {w w' : VerseWorld} {a : VerseAction}

theorem memberSince_step (h : MemberSince k side w)
    (hstep : verseStep crypto openPost w a = some w') :
    MemberSince k side w' := by
  obtain ⟨es, hlog, hmembers⟩ := members_step hstep
  refine ⟨?_, fun hmember => ?_⟩
  · rw [hlog, List.length_append]
    exact Nat.le_add_right_of_le h.1
  · rw [hlog]
    cases hmembers with
    | same hsame => exact (h.2 (hsame ▸ hmember)).append
    | removed s herase =>
        rw [herase, Table.erase_ne_none_iff] at hmember
        exact (h.2 hmember.2).append
    | joined conn io peer fromSide req arrived contract share ha hs hins hes =>
        rw [hins, Table.insert_ne_none_iff] at hmember
        rcases hmember with rfl | hold
        · rw [hes]
          exact joinedSince_added h.1 ..
        · exact (h.2 hold).append
    | direct s token key hins hes =>
        rw [hins, Table.insert_ne_none_iff] at hmember
        rcases hmember with rfl | hold
        · rw [hes]
          exact joinedSince_added h.1 ..
        · exact (h.2 hold).append

/-- Nobody comes to wait with a post that was not admitted since. -/
theorem nothingWaits_step (hmember : MemberSince k side w)
    (h : NothingWaits openPost k side w)
    (hstep : verseStep crypto openPost w a = some w') :
    NothingWaits openPost k side w' := by
  have hkey := contentKey_le_step hstep
  obtain ⟨es, hlog, -⟩ := members_step hstep
  intro conn peer pc post hs' hwaits hside
  rw [hlog]
  have hold : ∀ pc₀, w.sessions conn = some ⟨peer, pc₀⟩ →
      Waiting openPost w.host.contentKey post pc₀ →
        AdmittedSince k side (w.log ++ es) post := fun pc₀ hs hw =>
    (h conn peer pc₀ post hs hw hside).append
  cases sessions_step hstep hs' with
  | same _ hs =>
      refine hold pc hs ?_
      rcases hwaits with hpc | ⟨hpc, key, hle, hopen⟩
      · exact Or.inl hpc
      · exact Or.inr ⟨hpc, key, hkey.trans hle, hopen⟩
  | opened => rcases hwaits with h | ⟨h, -⟩ <;> cases h
  | received env ha hs =>
      rcases hwaits with h | ⟨h, -⟩
      · exact absurd h serveReceive_not_waiting.2
      · exact absurd h serveReceive_not_waiting.1
  | ticked io pc₀ t _ ha hs ht hnext =>
      rcases hwaits with rfl | ⟨rfl, -⟩
      · obtain ⟨rfl, hopen⟩ := serveTick_retaining ht hnext
        exact hold _ hs (Or.inr ⟨rfl, _, Nat.le_refl _, hopen⟩)
      · obtain ⟨version, hadmits, hevents⟩ := serveTick_opening ht hnext
        have hes : es = t.events := by
          rw [ha, verseStep_tick hs ht, Option.some.injEq] at hstep
          rw [← hstep, applySession_log] at hlog
          exact (List.append_cancel_left hlog).symm
        have hadmitted : w.host.members post.fromSide ≠ none := by
          intro hnone
          simp [VerseHost.admits, hnone] at hadmits
        rw [hes, hevents]
        rw [hside] at hadmitted
        exact (hmember.2 hadmitted).admitted _

/-- And what is stored was waiting. -/
theorem retracting_step (hmember : MemberSince k side w)
    (h : Retracting openPost k side w)
    (hstep : verseStep crypto openPost w a = some w') :
    Retracting openPost k side w' := by
  refine ⟨nothingWaits_step hmember h.waits hstep, ?_⟩
  obtain ⟨es, hlog, -⟩ := members_step hstep
  intro q hq
  rw [(contract_step hstep).1] at hq
  rw [hlog]
  have hold : q ∈ w.host.posts.bucket w.host.verse side →
      AdmittedSince k side (w.log ++ es) q.envelope := fun hq =>
    (h.posts q hq).append
  rcases posts_step hstep with hsame | ⟨conn, peer, pc, hs, hposts⟩
  · exact hold (hsame ▸ hq)
  · cases hposts with
    | same hsame => exact hold (hsame ▸ hq)
    | retracted author hposts =>
        rw [hposts, bucket_retractByAuthor] at hq
        split at hq
        · cases hq
        · exact hold hq
    | retained post storedAt hpc hposts =>
        rw [hposts] at hq
        rcases mem_bucket_addPost hq with hq | ⟨hside, rfl⟩
        · exact hold hq
        · exact (h.waits conn peer pc post hs (Or.inl hpc) hside.symm).append

end steps

-- ============================================= what waits comes through

section waiting

variable {k : Nat} {side : Address} {w : VerseWorld}

/-- A rotation that is called and installs the next key. -/
theorem rotation_run (crypto : Crypto)
    (openPost : VerseContentKey → VersePostPayload → Option (List UInt8))
    (w : VerseWorld) : ∃ w',
      run (verseStep crypto openPost) w
          [.rotate, .tickRotation w.nextId (some 0)] = some w'
        ∧ w'.host = w.host.rotateContentKey ∧ w'.sessions = w.sessions
        ∧ w'.log = w.log ++ [.rotated w.host.rotateContentKey.contentKey] := by
  have hcall : verseStep crypto openPost w .rotate = some { w with
      rotations := w.rotations.insert w.nextId .rotate
      nextId := w.nextId + 1 } := rfl
  rw [run_cons, hcall, Option.bind_some, run_cons]
  simp only [verseStep, Table.insert_self]
  exact ⟨_, rfl, rfl, rfl, rfl⟩

/-- So the key can come to any later one, with every handler where it is. -/
theorem rotations_reach (crypto : Crypto)
    (openPost : VerseContentKey → VersePostPayload → Option (List UInt8))
    (n : Nat) (w : VerseWorld) : ∃ acts w' es,
      run (verseStep crypto openPost) w acts = some w'
        ∧ w'.host = { w.host with contentKey := w.host.contentKey + n }
        ∧ w'.sessions = w.sessions ∧ w'.log = w.log ++ es
        ∧ ∀ e ∈ es, admittedPost e = none := by
  induction n with
  | zero =>
      exact ⟨[], w, [], rfl, rfl, rfl, (List.append_nil _).symm, by simp⟩
  | succ n ih =>
      obtain ⟨acts, w', es, hrun, hhost, hsessions, hlog, hes⟩ := ih
      obtain ⟨w'', hrun', hhost', hsessions', hlog'⟩ :=
        rotation_run crypto openPost w'
      refine ⟨acts ++ [.rotate, .tickRotation w'.nextId (some 0)], w'',
        es ++ [.rotated w'.host.rotateContentKey.contentKey], ?_, ?_,
        hsessions'.trans hsessions, ?_, ?_⟩
      · rw [run_append, hrun]
        exact hrun'
      · rw [hhost', hhost]
        rfl
      · rw [hlog', hlog, List.append_assoc]
      · intro e he
        rcases List.mem_append.mp he with he | he
        · exact hes e he
        · obtain rfl := List.mem_singleton.mp he
          rfl

/-- A handler that has opened a post stores it, if nothing of the author's is
stored. -/
theorem retained_of_retaining {conn : ConnId} {peer : Address}
    {post : Envelope VersePostPayload}
    (hs : w.sessions conn = some ⟨peer, .postRetain post⟩)
    (hempty : w.host.posts.bucket w.host.verse post.fromSide = []) :
    ∃ w', verseStep crypto openPost w (.tick conn none) = some w'
      ∧ w'.log = w.log
      ∧ ∃ q ∈ w'.host.posts.bucket w'.host.verse post.fromSide,
        q.envelope = post := by
  refine ⟨_, verseStep_tick hs rfl, ?_, ⟨post, post.payload, 0⟩, ?_, rfl⟩
  · rw [applySession_log]
    exact List.append_nil _
  · rw [applySession_host]
    dsimp only [Tick.go]
    unfold VersePostStore.addPost
    rw [hempty]
    unfold VersePostStore.bucket
    simp

/-- A handler that waits with a post stores it in some run. -/
theorem retained_of_waiting {conn : ConnId} {peer : Address} {pc : ServePc}
    {post : Envelope VersePostPayload} (crypto : Crypto)
    (hs : w.sessions conn = some ⟨peer, pc⟩)
    (hwaits : Waiting openPost w.host.contentKey post pc)
    (hempty : w.host.posts.bucket w.host.verse post.fromSide = []) :
    ∃ acts w' es, run (verseStep crypto openPost) w acts = some w'
      ∧ w'.log = w.log ++ es ∧ (∀ e ∈ es, admittedPost e = none)
      ∧ ∃ q ∈ w'.host.posts.bucket w'.host.verse post.fromSide,
        q.envelope = post := by
  rcases hwaits with rfl | ⟨rfl, key, hle, hopen⟩
  · obtain ⟨w', hstep, hlog, hq⟩ :=
      @retained_of_retaining crypto openPost w conn peer post hs hempty
    refine ⟨[.tick conn none], w', [], ?_, by rw [hlog, List.append_nil],
      by simp, hq⟩
    rw [run_cons, hstep]
    rfl
  · obtain ⟨acts, w', es, hrun, hhost, hsessions, hlog, hes⟩ :=
      rotations_reach crypto openPost (key - w.host.contentKey) w
    have hkey : w'.host.contentKey = key := by
      rw [hhost]
      exact Nat.add_sub_cancel' hle
    obtain ⟨plain, hplain⟩ := Option.ne_none_iff_exists'.mp hopen
    have htick : serveTick crypto openPost w'.host peer conn none
        (.postOpen post) = some (.go w'.host (.postRetain post) []) := by
      simp only [serveTick, hkey, hplain]
    have hopened := verseStep_tick (hsessions ▸ hs) htick
    have hretaining : (w'.applySession conn peer
        (.go w'.host (.postRetain post) [])).sessions conn
          = some ⟨peer, .postRetain post⟩ := by
      rw [applySession_sessions, if_pos rfl]
      rfl
    obtain ⟨w'', hstep, hlog', hq⟩ := @retained_of_retaining crypto openPost _
      conn peer post hretaining (by
        rw [applySession_host]
        dsimp only [Tick.go]
        rw [hhost]
        exact hempty)
    refine ⟨acts ++ [.tick conn none, .tick conn none], w'', es, ?_, ?_, hes,
      hq⟩
    · rw [run_append, hrun, Option.bind_some, run_cons, hopened,
        Option.bind_some, run_cons, hstep]
      rfl
    · rw [hlog', applySession_log, hlog]
      exact List.append_nil _

end waiting

-- ========================================================= the theorem

/-- The departure takes its side off the members, and says so. -/
theorem memberSince_leave {w w' : VerseWorld} {conn : ConnId} {peer : Address}
    {io : Option UInt64} {leave : VerseLeavePayload}
    (hs : w.sessions conn = some ⟨peer, .leave leave⟩)
    (hstep : verseStep crypto openPost w (.tick conn io) = some w') :
    MemberSince w'.log.length leave.side w' := by
  rw [verseStep_tick hs rfl, Option.some.injEq] at hstep
  subst hstep
  refine ⟨Nat.le_refl _, fun hmember => absurd ?_ hmember⟩
  rw [applySession_host]
  exact Table.erase_self ..

/-- After a departure that retracts, in every run from the clearing of the log
on, every post of the departed side that is stored was admitted after a later
join of it, if and only if no handler waits, when the log is cleared, with one
that was not. -/
theorem retraction_complete_iff (crypto : Crypto)
    (openPost : VerseContentKey → VersePostPayload → Option (List UInt8))
    {w₀ w₁ w₂ w₃ : VerseWorld} {conn : ConnId} {peer peer' : Address}
    {io io' : Option UInt64} {leave : VerseLeavePayload}
    {acts : List VerseAction}
    (hleave : w₀.sessions conn = some ⟨peer, .leave leave⟩)
    (hleft : verseStep crypto openPost w₀ (.tick conn io) = some w₁)
    (hrun : run (verseStep crypto openPost) w₁ acts = some w₂)
    (hretract : w₂.sessions conn = some ⟨peer', .retract leave⟩)
    (hcleared : verseStep crypto openPost w₂ (.tick conn io') = some w₃) :
    (∀ acts' w, run (verseStep crypto openPost) w₃ acts' = some w →
        Retracted w₁.log.length leave.side w)
      ↔ NothingWaits openPost w₁.log.length leave.side w₂ := by
  have hmember₂ : MemberSince w₁.log.length leave.side w₂ :=
    Reachable.induct (memberSince_leave hleave hleft)
      (fun _ _ _ h hstep => memberSince_step h hstep) ⟨acts, hrun⟩
  have hempty : w₃.host.posts.bucket w₃.host.verse leave.side = [] := by
    rw [verseStep_tick hretract rfl, Option.some.injEq] at hcleared
    rw [← hcleared, applySession_host]
    exact (bucket_retractByAuthor ..).trans (if_pos rfl)
  constructor
  · intro hall c p pc post hs hwaits hside
    have hne : c ≠ conn := by
      rintro rfl
      rw [hretract, Option.some.injEq] at hs
      cases hs
      rcases hwaits with h | ⟨h, -⟩ <;> cases h
    -- the clearing leaves the handler where it is
    obtain ⟨hs₃, hkey, hlog₃⟩ : w₃.sessions c = some ⟨p, pc⟩
        ∧ w₃.host.contentKey = w₂.host.contentKey ∧ w₃.log = w₂.log := by
      rw [verseStep_tick hretract rfl, Option.some.injEq] at hcleared
      rw [← hcleared, applySession_sessions, if_neg hne, applySession_host,
        applySession_log]
      exact ⟨hs, rfl, List.append_nil _⟩
    rw [← hside] at hempty
    obtain ⟨acts', w, es, hrun', hlog, hes, q, hq, rfl⟩ :=
      retained_of_waiting crypto hs₃ (hkey ▸ hwaits) hempty
    rw [hside] at hq
    have hadmitted := hall acts' w hrun' q hq
    rw [hlog, hlog₃] at hadmitted
    exact hadmitted.of_append hes
  · intro hnothing acts' w hrun'
    have hstart : MemberSince w₁.log.length leave.side w₃
        ∧ Retracting openPost w₁.log.length leave.side w₃ := by
      refine ⟨memberSince_step hmember₂ hcleared,
        nothingWaits_step hmember₂ hnothing hcleared, ?_⟩
      intro q hq
      rw [hempty] at hq
      cases hq
    have hstep : ∀ u a u', True → (MemberSince w₁.log.length leave.side u
          ∧ Retracting openPost w₁.log.length leave.side u) →
        verseStep crypto openPost u a = some u' →
          MemberSince w₁.log.length leave.side u'
            ∧ Retracting openPost w₁.log.length leave.side u' :=
      fun _ _ _ _ h hstep =>
        ⟨memberSince_step h.1 hstep, retracting_step h.1 h.2 hstep⟩
    exact (run_induct hstep (along_true w₃ acts') hstart hrun').2.posts

/-- The member of `joinTitled` posts on a second session, up to here. -/
def postSecond (last : List VerseAction) : List VerseAction :=
  joinTitled ++ [.openSession (Bytes.fill _ 2), .tick 1 none, .tick 1 none,
    .receive 1 (toVerse (Bytes.fill _ 2) (.versePost ⟨Bytes.fill _ 0, []⟩)),
    .tick 1 none, .tick 1 none, .tick 1 none] ++ last

/-- And leaves on the first. -/
def leaveRetract : VerseLeavePayload :=
  ⟨Bytes.fill _ 1, Bytes.fill _ 2, .retract⟩

/-- The leave arrives. -/
def receiveLeave : VerseAction :=
  .receive 0 (toVerse (Bytes.fill _ 2) (.verseLeave leaveRetract))

/-- The post is stored before the leave. -/
theorem retraction_complete_stored :
    ∃ w₀ w₁ w₂, run (verseStep titleHash fun _ _ => some []) titledVerse
        (postSecond [.tick 1 none, receiveLeave]) = some w₀
      ∧ verseStep titleHash (fun _ _ => some []) w₀ (.tick 0 none) = some w₁
      ∧ verseStep titleHash (fun _ _ => some []) w₁ (.tick 0 none) = some w₂
      ∧ (w₁.host.posts.bucket (Bytes.fill _ 1) (Bytes.fill _ 2)).length = 1
      ∧ ∀ acts w, run (verseStep titleHash fun _ _ => some []) w₂ acts
          = some w → Retracted w₁.log.length (Bytes.fill _ 2) w := by
  obtain ⟨w₀, w₁, w₂, hrun, hleave, hleft, hretract, hsecond, hcleared,
      hcount⟩ : ∃ w₀ w₁ w₂, run (verseStep titleHash fun _ _ => some [])
          titledVerse (postSecond [.tick 1 none, receiveLeave]) = some w₀
        ∧ w₀.sessions 0 = some ⟨Bytes.fill _ 2, .leave leaveRetract⟩
        ∧ verseStep titleHash (fun _ _ => some []) w₀ (.tick 0 none) = some w₁
        ∧ w₁.sessions 0 = some ⟨Bytes.fill _ 2, .retract leaveRetract⟩
        ∧ w₁.sessions 1 = some ⟨Bytes.fill _ 2, .accept⟩
        ∧ verseStep titleHash (fun _ _ => some []) w₁ (.tick 0 none) = some w₂
        ∧ w₁.nextId = 2
        ∧ (w₁.host.posts.bucket (Bytes.fill _ 1) (Bytes.fill _ 2)).length
          = 1 :=
    ⟨_, _, _, rfl, rfl, rfl, rfl, rfl, rfl, rfl, rfl⟩
  have hids : FreshIds w₁ := freshIds_of_reachable
    ⟨postSecond [.tick 1 none, receiveLeave] ++ [.tick 0 none], by
      show run _ titledVerse _ = _
      rw [run_concat, hrun]
      exact hleft⟩
  refine ⟨w₀, w₁, w₂, hrun, hleft, hcleared, hcount.2,
    (retraction_complete_iff titleHash (fun _ _ => some []) hleave hleft
      (run_nil _) hretract hcleared).mpr fun conn peer pc post hs hwaits => ?_⟩
  have hlt : conn < 2 := hcount.1 ▸ hids.sessions conn _ hs
  interval_cases conn
  · cases hretract.symm.trans hs
    rcases hwaits with h | ⟨h, -⟩ <;> cases h
  · cases hsecond.symm.trans hs
    rcases hwaits with h | ⟨h, -⟩ <;> cases h

/-- The post is opened when the log is cleared, and stored after that. -/
theorem waiting_post_unretracted :
    ∃ w₀ w₁ w₂ w, run (verseStep titleHash fun _ _ => some []) titledVerse
        (postSecond [receiveLeave]) = some w₀
      ∧ w₀.sessions 0 = some ⟨Bytes.fill _ 2, .leave leaveRetract⟩
      ∧ verseStep titleHash (fun _ _ => some []) w₀ (.tick 0 none) = some w₁
      ∧ w₁.sessions 0 = some ⟨Bytes.fill _ 2, .retract leaveRetract⟩
      ∧ verseStep titleHash (fun _ _ => some []) w₁ (.tick 0 none) = some w₂
      ∧ verseStep titleHash (fun _ _ => some []) w₂ (.tick 1 none) = some w
      ∧ ¬ Retracted w₁.log.length (Bytes.fill _ 2) w := by
  refine ⟨_, _, _, _, rfl, rfl, rfl, rfl, rfl, rfl, fun h => ?_⟩
  obtain ⟨i, j, _, _, _, hk, hij, -, hj⟩ := h _ List.mem_cons_self
  exact absurd (List.getElem?_eq_some_iff.mp hj).1
    (Nat.not_lt.mpr (hk.trans (Nat.le_of_lt hij)))

end Sidevers.Proofs
