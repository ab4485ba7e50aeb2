/-
What becomes of a direct message once a session has opened it.

While the process lives nothing is lost, doubled or overtaken: what a session
opened is what was shown of it, then what is on its way (`InboxInv`). When the
process ends, what was on its way is lost to the user, but for what the drain
task had already stored.

The history that is loaded after a restart is made of the same events that
were shown when the messages came in (`history_as_shown`): `build_inbox_dm`
makes both, and the clock of a row is the clock of its event.
-/
import Sidevers.Lib.Run
import Sidevers.Net.Inbox
import Sidevers.Proofs.AddressText

namespace Sidevers.Proofs

open Sidevers.Core
open Sidevers.Lib
open Sidevers.Net

variable {crate : Bech32} {unicode : Unicode}

-- ============================================================== one step

/-- What a step does. -/
inductive InboxStep (crate : Bech32) (w : InboxWorld) :
    InboxAction → InboxWorld → Prop where
  | opened (session : Nat) (dm : DirectMessageReceived)
      (channel : Channel DmSource DirectMessageReceived)
      (h : w.channel.offer (w.life, session) dm = some channel) :
      InboxStep crate w (.opened session dm)
        { w with
          channel
          opened := w.opened ++ [((w.life, session), dm)] }
  | enter (session : Nat)
      (channel : Channel DmSource DirectMessageReceived)
      (h : w.channel.enter dmChannelCapacity (w.life, session)
        = some channel) :
      InboxStep crate w (.enter session) { w with channel }
  | receive (now : UInt64) (source : DmSource) (dm : DirectMessageReceived)
      (channel : Channel DmSource DirectMessageReceived)
      (hpc : w.drain = .next)
      (h : w.channel.receive = some ((source, dm), channel)) :
      InboxStep crate w (.receive now)
        { w with channel, drain := .received source dm now }
  | insert (ok : Bool) (source : DmSource) (dm : DirectMessageReceived)
      (now : UInt64) (hpc : w.drain = .received source dm now) :
      InboxStep crate w (.insert ok)
        { w with
          drain := .inserted ⟨source, dm, now, ok⟩
          store := match (Drained.mk source dm now ok).entry with
            | none => w.store
            | some entry => w.store.insert ok entry
          drained := w.drained ++ [⟨source, dm, now, ok⟩] }
  | emit (d : Drained) (hpc : w.drain = .inserted d) :
      InboxStep crate w .emit
        { w with
          drain := .next
          shown := w.shown ++ [(d, d.event crate)] }
  | quit :
      InboxStep crate w .quit
        { w with
          life := w.life + 1
          channel := .empty
          drain := .next
          lost := w.lost ++ w.drain.held ++ w.channel.items }

theorem inboxStep_cases {w w' : InboxWorld} {a : InboxAction}
    (h : inboxStep crate w a = some w') : InboxStep crate w a w' := by
  cases a with
  | opened session dm =>
      simp only [inboxStep] at h
      split at h
      case h_1 => cases h
      case h_2 channel hoffer =>
        cases h
        exact .opened session dm channel hoffer
  | enter session =>
      simp only [inboxStep] at h
      split at h
      case h_1 => cases h
      case h_2 channel henter =>
        cases h
        exact .enter session channel henter
  | receive now =>
      simp only [inboxStep] at h
      split at h
      case h_1 source dm channel hpc hreceive =>
        cases h
        exact .receive now source dm channel hpc hreceive
      case h_2 => cases h
  | insert ok =>
      simp only [inboxStep] at h
      split at h
      case h_1 source dm now hpc =>
        cases h
        exact .insert ok source dm now hpc
      case h_2 => cases h
  | emit =>
      simp only [inboxStep] at h
      split at h
      case h_1 d hpc =>
        cases h
        exact .emit d hpc
      case h_2 => cases h
  | quit =>
      cases h
      exact .quit

-- ======================================================= nothing is lost

/-- A message that was shown, with its session. -/
def shownMessage (x : Drained × InboxDm) :
    DmSource × DirectMessageReceived := (x.1.source, x.1.dm)

/-- What holds in every run. -/
structure InboxInv (crate : Bech32) (w : InboxWorld) : Prop where
  /-- Of each session, in the order in which it opened them. -/
  order : ∀ i, sentBy i w.opened
    = sentBy i (w.shown.map shownMessage) ++ sentBy i w.lost
      ++ sentBy i w.drain.held ++ w.channel.content i
  lost : ∀ x ∈ w.lost, x.1.1 < w.life
  held : ∀ x ∈ w.drain.held, x.1.1 = w.life
  underway : ∀ i, w.channel.content i ≠ [] → i.1 = w.life
  room : w.channel.queue.length ≤ dmChannelCapacity
  events : ∀ x ∈ w.shown, x.2 = x.1.event crate

theorem inboxInv_init : InboxInv crate .init where
  order _ := rfl
  lost := nofun
  held := nofun
  underway _ h := absurd rfl h
  room := Nat.zero_le _
  events := nofun

/-- Nothing of the present life is lost. -/
theorem InboxInv.lost_nil {w : InboxWorld} (h : InboxInv crate w)
    {i : DmSource} (hi : i.1 = w.life) : sentBy i w.lost = [] := by
  refine List.eq_nil_iff_forall_not_mem.mpr fun dm hdm => ?_
  have hlt : i.1 < w.life := h.lost _ (mem_sentBy.mp hdm)
  omega

/-- Step lemma. -/
theorem inboxInv_step {w w' : InboxWorld} {a : InboxAction}
    (h : InboxInv crate w) (hstep : inboxStep crate w a = some w') :
    InboxInv crate w' := by
  cases inboxStep_cases hstep with
  | opened session dm channel hoffer =>
      refine { h with
        order := fun i => ?_
        underway := fun i hi => ?_
        room := by
          rw [Channel.queue_offer hoffer]
          exact h.room }
      · dsimp only
        rw [sentBy_append, h.order i, Channel.content_offer hoffer,
          List.append_assoc _ (w.channel.content i)]
      · by_cases hsame : (w.life, session) = i
        · exact hsame ▸ rfl
        · apply h.underway i
          dsimp only at hi
          rwa [Channel.content_offer hoffer,
            sentBy_single_other hsame, List.append_nil] at hi
  | enter session channel henter =>
      refine { h with
        order := fun i => ?_
        underway := fun i hi => ?_
        room := (Channel.length_enter henter).2.2 }
      · dsimp only
        rw [Channel.content_enter henter]
        exact h.order i
      · apply h.underway i
        dsimp only at hi
        rwa [Channel.content_enter henter] at hi
  | receive now source dm channel hpc hreceive =>
      have hcontent := Channel.content_receive hreceive
      refine { h with
        order := fun i => ?_
        held := fun x hx => ?_
        underway := fun i hi => ?_
        room := ?_ }
      · rw [h.order i, hpc, hcontent i]
        simp only [DrainPc.held, sentBy_nil, List.append_nil,
          List.append_assoc]
      · obtain rfl := List.mem_singleton.mp hx
        apply h.underway source
        rw [hcontent, sentBy_single_self]
        exact List.cons_ne_nil _ _
      · apply h.underway i
        rw [hcontent]
        exact List.append_ne_nil_of_right_ne_nil _ hi
      · have hroom := h.room
        have hlen := (Channel.length_receive hreceive).2
        dsimp only
        omega
  | insert ok source dm now hpc =>
      refine { h with
        order := fun i => ?_
        held := fun x hx => ?_ }
      · rw [h.order i, hpc]
        rfl
      · apply h.held x
        rw [hpc]
        exact hx
  | emit d hpc =>
      have hnow : d.source.1 = w.life := by
        apply h.held (d.source, d.dm)
        rw [hpc]
        exact List.mem_singleton.mpr rfl
      refine { h with
        order := fun i => ?_
        held := fun _ hx => absurd hx List.not_mem_nil
        events := fun x hx => ?_ }
      · rw [h.order i, hpc, List.map_append, sentBy_append]
        simp only [DrainPc.held, sentBy_nil, List.append_nil, List.map_cons,
          List.map_nil, shownMessage]
        by_cases hi : d.source = i
        · subst hi
          rw [h.lost_nil hnow, List.append_nil, List.append_nil]
        · rw [sentBy_single_other hi, List.append_nil, List.append_nil]
      · rcases List.mem_append.mp hx with hx | hx
        · exact h.events x hx
        · obtain rfl := List.mem_singleton.mp hx
          rfl
  | quit =>
      refine { h with
        order := fun i => ?_
        lost := fun x hx => ?_
        held := fun _ hx => absurd hx List.not_mem_nil
        underway := fun i hi => absurd rfl hi
        room := Nat.zero_le _ }
      · dsimp only
        rw [h.order i, sentBy_append, sentBy_append, Channel.sentBy_items]
        simp only [DrainPc.held, sentBy_nil, List.append_nil,
          Channel.content_empty, List.append_assoc]
      · dsimp only
        rw [List.append_assoc] at hx
        rcases List.mem_append.mp hx with hx | hx
        · exact Nat.lt_succ_of_lt (h.lost x hx)
        · have hlife : x.1.1 = w.life := by
            rcases List.mem_append.mp hx with hx | hx
            · exact h.held x hx
            · apply h.underway x.1
              rw [← Channel.sentBy_items]
              exact List.ne_nil_of_mem (mem_sentBy.mpr hx)
          omega

theorem inboxInv_run {w : InboxWorld} {acts : List InboxAction}
    (hrun : run (inboxStep crate) .init acts = some w) :
    InboxInv crate w :=
  run_induct (fun _ _ _ _ h hs => inboxInv_step h hs)
    (along_true _ _) inboxInv_init hrun

/-- What of a session is on its way to the user. -/
def onTheWay (w : InboxWorld) (i : DmSource) : List DirectMessageReceived :=
  sentBy i w.drain.held ++ w.channel.content i

/-- In every run, whatever the order of the sessions and the task, and
whenever the process ends: of what a session opened each message is shown
once, in its order, or is on its way; or it was when the process ended. -/
theorem dms_shown_in_order (crate : Bech32) (w : InboxWorld)
    (acts : List InboxAction)
    (hrun : run (inboxStep crate) .init acts = some w) :
    (∀ i : DmSource, i.1 = w.life → sentBy i w.opened
        = sentBy i (w.shown.map shownMessage) ++ onTheWay w i)
      ∧ (∀ i : DmSource, i.1 ≠ w.life → sentBy i w.opened
        = sentBy i (w.shown.map shownMessage) ++ sentBy i w.lost)
      ∧ (∀ x ∈ w.shown, x.2 = x.1.event crate)
      ∧ w.channel.queue.length ≤ dmChannelCapacity := by
  have hinv := inboxInv_run hrun
  refine ⟨fun i hi => ?_, fun i hi => ?_, hinv.events, hinv.room⟩
  · rw [hinv.order i, hinv.lost_nil hi, List.append_nil, List.append_assoc,
      onTheWay]
  · have hheld : sentBy i w.drain.held = [] := by
      refine List.eq_nil_iff_forall_not_mem.mpr fun dm hdm => ?_
      exact hi (hinv.held _ (mem_sentBy.mp hdm))
    have hcontent : w.channel.content i = [] := by
      by_contra hne
      exact hi (hinv.underway i hne)
    rw [hinv.order i, hheld, hcontent, List.append_nil, List.append_nil]

/-- A message of sixteen threes. -/
def greeting : DirectMessageReceived :=
  ⟨⟨Core.protocolVersion, .directMessage, Bytes.fill 32 1, some (Bytes.fill 32 2),
    5, Bytes.fill 16 3, [], Bytes.fill 64 0⟩, List.replicate 16 3⟩

/-- It is opened, and shown. -/
theorem dms_shown_in_order_greeting :
    ∃ w, run (inboxStep bip350) .init
        [.opened 0 greeting, .enter 0, .receive 7, .insert true, .emit]
          = some w
      ∧ sentBy (0, 0) (w.shown.map shownMessage) = [greeting] := by
  obtain ⟨w, hrun, hlife, hopened, hdone⟩ : ∃ w, run (inboxStep bip350) .init
      [.opened 0 greeting, .enter 0, .receive 7, .insert true, .emit]
        = some w ∧ w.life = 0 ∧ sentBy (0, 0) w.opened = [greeting]
      ∧ onTheWay w (0, 0) = [] := ⟨_, rfl, rfl, rfl, rfl⟩
  have horder := (dms_shown_in_order bip350 w _ hrun).1 (0, 0) hlife.symm
  rw [hopened, hdone, List.append_nil] at horder
  exact ⟨w, hrun, horder.symm⟩

-- ===================================================== everything is shown

/-- A step of the node itself: no message is opened, and the process goes
on. -/
def Internal : InboxAction → Prop
  | .enter _ | .receive _ | .insert _ | .emit => True
  | .opened _ _ | .quit => False

/-- The steps that are left for what is on its way. -/
def stepsLeft (w : InboxWorld) : Nat :=
  4 * w.channel.waiting.rows.length + 3 * w.channel.queue.length
    + match w.drain with
      | .next => 0
      | .received _ _ _ => 2
      | .inserted _ => 1

/-- Each takes one of them, and nothing new comes. -/
theorem stepsLeft_step {w w' : InboxWorld} {a : InboxAction}
    (hinternal : Internal a) (hstep : inboxStep crate w a = some w') :
    stepsLeft w' + 1 ≤ stepsLeft w ∧ w'.opened = w.opened
      ∧ w'.life = w.life := by
  unfold stepsLeft
  cases inboxStep_cases hstep with
  | opened session dm channel hoffer => exact hinternal.elim
  | enter session channel henter =>
      obtain ⟨hwaiting, hqueue, -⟩ := Channel.length_enter henter
      refine ⟨?_, rfl, rfl⟩
      dsimp only
      omega
  | receive now source dm channel hpc hreceive =>
      obtain ⟨hwaiting, hqueue⟩ := Channel.length_receive hreceive
      refine ⟨?_, rfl, rfl⟩
      dsimp only
      rw [hwaiting, hpc]
      dsimp only
      omega
  | insert ok source dm now hpc =>
      refine ⟨?_, rfl, rfl⟩
      rw [hpc]
      exact Nat.le_refl _
  | emit d hpc =>
      refine ⟨?_, rfl, rfl⟩
      rw [hpc]
      exact Nat.le_refl _
  | quit => exact hinternal.elim

theorem stepsLeft_run {w w' : InboxWorld} {acts : List InboxAction}
    (hinternal : ∀ a ∈ acts, Internal a)
    (hrun : run (inboxStep crate) w acts = some w') :
    acts.length + stepsLeft w' ≤ stepsLeft w ∧ w'.opened = w.opened
      ∧ w'.life = w.life := by
  induction acts generalizing w with
  | nil =>
      rw [run_nil, Option.some.injEq] at hrun
      subst hrun
      exact ⟨Nat.le_of_eq (Nat.zero_add _), rfl, rfl⟩
  | cons a rest ih =>
      rw [run_cons] at hrun
      obtain ⟨t, ht, hrest⟩ := Option.bind_eq_some_iff.mp hrun
      obtain ⟨hone, hopened, hlife⟩ :=
        stepsLeft_step (hinternal a List.mem_cons_self) ht
      obtain ⟨hmore, hopened', hlife'⟩ :=
        ih (fun b hb => hinternal b (List.mem_cons_of_mem _ hb)) hrest
      refine ⟨?_, hopened'.trans hopened, hlife'.trans hlife⟩
      rw [List.length_cons]
      omega

/-- While something is on its way, there is such a step. -/
theorem onTheWay_nil {w : InboxWorld} (h : InboxInv crate w)
    (hdone : ∀ a, Internal a → inboxStep crate w a = none)
    (i : DmSource) : onTheWay w i = [] := by
  cases hpc : w.drain with
  | received source dm now =>
      have hnone := hdone (.insert true) trivial
      simp [inboxStep, hpc] at hnone
  | inserted d =>
      have hnone := hdone .emit trivial
      simp [inboxStep, hpc] at hnone
  | next =>
      cases hqueue : w.channel.queue with
      | cons x rest =>
          have hnone := hdone (.receive 0) trivial
          simp [inboxStep, hpc, Channel.receive, hqueue] at hnone
      | nil =>
          cases hget : w.channel.waiting.get i with
          | none =>
              unfold onTheWay Channel.content
              rw [hpc, hqueue, hget]
              rfl
          | some dm =>
              have hlife : i.1 = w.life := by
                apply h.underway i
                unfold Channel.content
                rw [hqueue, hget]
                exact List.cons_ne_nil _ _
              have hroom : w.channel.queue.length < dmChannelCapacity := by
                rw [hqueue]
                decide
              have hsome := Channel.enter_isSome (i := i) hroom (by simp [hget])
              obtain ⟨channel, hchannel⟩ := Option.isSome_iff_exists.mp hsome
              have hnone := hdone (.enter i.2) trivial
              simp [inboxStep, ← hlife, hchannel] at hnone

/-- From every state of every run: what the sessions have opened is shown
within four steps for each message that is on its way, in whatever order the
steps are taken. -/
theorem inbox_drains (crate : Bech32) (w w' : InboxWorld)
    (acts rest : List InboxAction)
    (hrun : run (inboxStep crate) .init acts = some w)
    (hinternal : ∀ a ∈ rest, Internal a)
    (hrest : run (inboxStep crate) w rest = some w') :
    rest.length ≤ 4 * (w.drain.held ++ w.channel.items).length
      ∧ ((∀ a, Internal a → inboxStep crate w' a = none) →
        ∀ i : DmSource, i.1 = w.life →
          sentBy i (w'.shown.map shownMessage) = sentBy i w.opened) := by
  obtain ⟨hsteps, hopened, hlife⟩ := stepsLeft_run hinternal hrest
  constructor
  · have hall : stepsLeft w
        ≤ 4 * (w.drain.held ++ w.channel.items).length := by
      unfold stepsLeft Channel.items
      rw [List.length_append, List.length_append]
      cases w.drain with
      | next =>
          dsimp only [DrainPc.held]
          rw [List.length_nil]
          omega
      | received source dm now =>
          dsimp only [DrainPc.held]
          rw [List.length_singleton]
          omega
      | inserted d =>
          dsimp only [DrainPc.held]
          rw [List.length_singleton]
          omega
    omega
  · intro hdone i hi
    have hrun' : run (inboxStep crate) .init (acts ++ rest) = some w' := by
      rw [run_append, hrun]
      exact hrest
    have hinv := inboxInv_run hrun'
    have horder := hinv.order i
    rw [hinv.lost_nil (hi.trans hlife.symm), List.append_nil,
      List.append_assoc, ← onTheWay, onTheWay_nil hinv hdone i,
      List.append_nil, hopened] at horder
    exact horder.symm

/-- Four steps after it was opened. -/
theorem inbox_drains_greeting :
    ∃ w w', run (inboxStep bip350) .init [.opened 0 greeting] = some w
      ∧ run (inboxStep bip350) w [.enter 0, .receive 7, .insert true, .emit]
        = some w'
      ∧ sentBy (0, 0) (w'.shown.map shownMessage)
        = sentBy (0, 0) w.opened := by
  obtain ⟨w, w', hrun, hlife, hrest, hdone⟩ : ∃ w w',
      run (inboxStep bip350) .init [.opened 0 greeting] = some w
        ∧ w.life = 0
        ∧ run (inboxStep bip350) w [.enter 0, .receive 7, .insert true, .emit]
          = some w'
        ∧ w'.drain = .next ∧ w'.channel.waiting.rows = []
        ∧ w'.channel.queue = [] := ⟨_, _, rfl, rfl, rfl, rfl, rfl, rfl⟩
  obtain ⟨hnext, hwaiting, hqueue⟩ := hdone
  refine ⟨w, w', hrun, hrest, (inbox_drains bip350 w w' _ _ hrun ?_ hrest).2
    ?_ (0, 0) hlife.symm⟩
  · simp [Internal]
  · intro a hinternal
    cases a with
    | opened session dm => exact hinternal.elim
    | enter session =>
        have hnone : w'.channel.waiting.get (w'.life, session) = none := by
          unfold Rows.get
          rw [hwaiting]
          rfl
        unfold inboxStep Channel.enter
        dsimp only
        rw [hnone]
    | receive now =>
        unfold inboxStep Channel.receive
        dsimp only
        rw [hnext, hqueue]
    | insert ok =>
        unfold inboxStep
        dsimp only
        rw [hnext]
    | emit =>
        unfold inboxStep
        dsimp only
        rw [hnext]
    | quit => exact hinternal.elim

-- ============================================================ the history

/-- The key a drained message is stored under, if its insert goes through. -/
def storedKey (d : Drained) : Option InboxKey :=
  if d.ok then d.entry.map fun e => (e.recipient, e.sender, e.nonce)
  else none

/-- The row of a drained message that has a recipient. -/
def drainedRow (d : Drained) : InboxKey × InboxRow :=
  ((d.dm.envelope.toSide.getD (Bytes.fill _ 0), d.dm.envelope.fromSide,
      d.dm.envelope.nonce.val),
    ⟨d.dm.envelope.toWireBytes, d.dm.plaintext, d.now.toInt64⟩)

theorem drainedRow_key {d : Drained} {k : InboxKey}
    (h : storedKey d = some k) : (drainedRow d).1 = k := by
  unfold storedKey Drained.entry at h
  unfold drainedRow
  split at h
  case isFalse => cases h
  case isTrue =>
    rw [Option.map_map, Option.map_eq_some_iff] at h
    obtain ⟨recipient, hto, rfl⟩ := h
    rw [hto]
    rfl

/-- An insert adds the row of the message, if it goes through and the message
has a recipient. -/
theorem insert_drained (store : InboxStore) (d : Drained) :
    (match d.entry with
      | none => store
      | some entry => store.insert d.ok entry)
      = match storedKey d with
        | none => store
        | some k => store.insertOrIgnore k (drainedRow d).2 := by
  unfold storedKey Drained.entry InboxStore.insert drainedRow
  cases d.dm.envelope.toSide with
  | none => cases d.ok <;> rfl
  | some recipient => cases d.ok <;> rfl

/-- Those of one life of the process. -/
def ofLife (life : Nat) (drained : List Drained) : List Drained :=
  drained.filter fun d => decide (d.source.1 = life)

theorem ofLife_append (life : Nat) (as bs : List Drained) :
    ofLife life (as ++ bs) = ofLife life as ++ ofLife life bs :=
  List.filter_append ..

/-- The message that is stored and about to be shown. -/
def inHand : DrainPc → List Drained
  | .inserted d => [d]
  | _ => []

/-- What is in hand is of the present life. -/
theorem InboxInv.inHand_other {w : InboxWorld} (h : InboxInv crate w)
    {life : Nat} (hlife : life ≠ w.life) : ofLife life (inHand w.drain) = [] := by
  refine List.filter_eq_nil_iff.mpr fun d hd => ?_
  cases hpc : w.drain with
  | next | received =>
      rw [hpc] at hd
      cases hd
  | inserted d' =>
      rw [hpc] at hd
      cases List.mem_singleton.mp hd
      have hheld := h.held (d.source, d.dm)
      rw [hpc] at hheld
      have hown : d.source.1 = w.life := hheld List.mem_cons_self
      rw [hown, decide_eq_true_iff]
      exact hlife.symm

/-- What holds of the table and the drained messages. -/
structure HistoryInv (w : InboxWorld) : Prop where
  rows : w.store.rows = (Rows.firsts storedKey w.drained).map drainedRow
  /-- What was drained was shown, but for what is in hand and for the last
  message of a life that has ended. -/
  shown : ∃ before, (w.shown.map Prod.fst).Sublist before
    ∧ (∀ life, ∃ missed : Option Drained,
      ofLife life before
        = ofLife life (w.shown.map Prod.fst) ++ missed.toList
      ∧ (w.life ≤ life → missed = none))
    ∧ w.drained = before ++ inHand w.drain

theorem historyInv_init : HistoryInv .init :=
  ⟨rfl, [], .slnil, fun _ => ⟨none, rfl, fun _ => rfl⟩, rfl⟩

/-- Of each life everything that was drained was shown, but for the last. -/
theorem HistoryInv.missed {w : InboxWorld} (h : HistoryInv w)
    (hinv : InboxInv crate w) (life : Nat) :
    ∃ missed : Option Drained, ofLife life w.drained
        = ofLife life (w.shown.map Prod.fst) ++ missed.toList
      ∧ (w.life < life → missed = none) := by
  obtain ⟨-, before, -, hmissed, hdrained⟩ := h
  obtain ⟨missed, hbefore, hnone⟩ := hmissed life
  rw [hdrained, ofLife_append, hbefore, List.append_assoc]
  by_cases hlife : life = w.life
  · -- nothing of this life was missed before
    rw [hnone (Nat.le_of_eq hlife.symm)]
    cases w.drain with
    | next | received =>
        exact ⟨none, rfl, fun _ => rfl⟩
    | inserted d =>
        refine ⟨if d.source.1 = life then some d else none, ?_,
          fun hlt => absurd hlife (Nat.ne_of_gt hlt)⟩
        by_cases hd : d.source.1 = life
        · simp [ofLife, inHand, hd]
        · simp [ofLife, inHand, hd]
  · rw [hinv.inHand_other hlife, List.append_nil]
    exact ⟨missed, rfl, fun hlt => hnone (Nat.le_of_lt hlt)⟩

/-- What was shown was drained, in that order. -/
theorem HistoryInv.sublist {w : InboxWorld} (h : HistoryInv w) :
    (w.shown.map Prod.fst).Sublist w.drained := by
  obtain ⟨-, before, hsub, -, hdrained⟩ := h
  rw [hdrained]
  exact hsub.trans (List.sublist_append_left ..)

theorem historyInv_step {w w' : InboxWorld} {a : InboxAction}
    (hinv : InboxInv crate w) (h : HistoryInv w)
    (hstep : inboxStep crate w a = some w') : HistoryInv w' := by
  have hmissed := h.missed hinv
  have hsublist := h.sublist
  obtain ⟨hrows, before, hsub, hbefore, hdrained⟩ := h
  cases inboxStep_cases hstep with
  | opened session dm channel hoffer =>
      exact ⟨hrows, before, hsub, hbefore, hdrained⟩
  | enter session channel henter =>
      exact ⟨hrows, before, hsub, hbefore, hdrained⟩
  | receive now source dm channel hpc hreceive =>
      rw [hpc] at hdrained
      exact ⟨hrows, before, hsub, hbefore, hdrained⟩
  | insert ok source dm now hpc =>
      rw [hpc] at hdrained
      refine ⟨?_, before, hsub, hbefore, ?_⟩
      · have hinsert := insert_drained w.store ⟨source, dm, now, ok⟩
        dsimp only at hinsert ⊢
        rw [hinsert]
        cases hkey : storedKey ⟨source, dm, now, ok⟩ with
        | none =>
            rw [Rows.firsts_concat_none _ hkey]
            exact hrows
        | some k =>
            exact Rows.rows_insertOrIgnore_firsts
              (fun _ _ h => drainedRow_key h) hrows hkey
      · dsimp only [inHand] at hdrained ⊢
        rw [hdrained, List.append_nil]
  | emit d hpc =>
      rw [hpc] at hdrained
      refine ⟨hrows, before ++ [d], ?_, fun life => ?_, ?_⟩
      · dsimp only
        rw [List.map_append]
        exact hsub.append (.refl _)
      · obtain ⟨missed, hlife, hnone⟩ := hbefore life
        refine ⟨missed, ?_, hnone⟩
        dsimp only
        rw [List.map_append, ofLife_append, ofLife_append, hlife,
          List.append_assoc, List.append_assoc]
        congr 1
        by_cases hown : life = w.life
        · rw [hnone (Nat.le_of_eq hown.symm)]
          exact (List.append_nil _).symm
        · have hother := hinv.inHand_other hown
          rw [hpc] at hother
          dsimp only [inHand] at hother
          rw [List.map_singleton, hother, List.append_nil, List.nil_append]
      · rw [hdrained]
        exact (List.append_nil _).symm
  | quit =>
      refine ⟨hrows, w.drained, hsublist, fun life => ?_,
        (List.append_nil _).symm⟩
      obtain ⟨missed, hlife, hnone⟩ := hmissed life
      exact ⟨missed, hlife, fun hle => hnone hle⟩

theorem historyInv_run {w : InboxWorld} {acts : List InboxAction}
    (hrun : run (inboxStep crate) .init acts = some w) : HistoryInv w := by
  have hstep : ∀ w a w', True → InboxInv crate w ∧ HistoryInv w →
      inboxStep crate w a = some w' → InboxInv crate w' ∧ HistoryInv w' :=
    fun _ _ _ _ h hs => ⟨inboxInv_step h.1 hs, historyInv_step h.1 h.2 hs⟩
  exact (run_induct hstep (along_true _ _)
    ⟨inboxInv_init, historyInv_init⟩ hrun).2

-- ------------------------------------------------------------- the text

/-- Nothing in the text of an address is white space. -/
theorem not_isWhitespace_addressText (a : WireAddress) :
    ∀ c ∈ addressText a, isWhitespace c = false := by
  intro c hc
  obtain ⟨hlow, hhigh⟩ := Bech32m.encode_forall _ (validHrp a.kind).printable
    (by decide) Bech32m.groupChar_printable c hc
  unfold isWhitespace
  simp only [Bool.or_eq_false_iff, Bool.and_eq_false_iff,
    decide_eq_false_iff_not]
  omega

/-- Nothing is trimmed off a text without white space. -/
theorem trim_ofList {text : List Char}
    (h : ∀ c ∈ text, isWhitespace c = false) :
    trim (.ofList text) = .ofList text := by
  have hkept : ∀ text : List Char, (∀ c ∈ text, isWhitespace c = false) →
      text.dropWhile isWhitespace = text := by
    intro text h
    cases text with
    | nil => rfl
    | cons c rest =>
        rw [List.dropWhile_cons_of_neg]
        rw [h c List.mem_cons_self]
        exact Bool.false_ne_true
  unfold trim
  rw [String.toList_ofList, hkept text h,
    hkept text.reverse fun c hc => h c (List.mem_reverse.mp hc),
    List.reverse_reverse]

theorem sideText_eq (hcrate : ImplementsBip350 crate) (side : Address) :
    sideText crate side = .ofList (addressText ⟨.side, side⟩) := by
  unfold sideText
  rw [encode_eq hcrate]
  rfl

/-- The text of a side's address is read as that side. -/
theorem decodeSideAddress_sideText (hcrate : ImplementsBip350 crate)
    (hunicode : LowersAsUnicode unicode) (side : Address) :
    decodeSideAddress crate unicode (sideText crate side) = .ok side := by
  have hparse : WireAddress.parse crate unicode
      (.ofList (addressText ⟨.side, side⟩)) = .ok ⟨.side, side⟩ :=
    parse_of_spellingOf hcrate hunicode
      ((spellingOf_iff hcrate _ _).mpr (.inl String.toList_ofList))
  unfold decodeSideAddress
  rw [sideText_eq hcrate, trim_ofList (not_isWhitespace_addressText _),
    hparse]
  rfl

-- ------------------------------------------------------------ the events

/-- What is loaded of a row. -/
def loaded (crate : Bech32) (r : InboxKey × InboxRow) : InboxDm :=
  let e := entryOfRow r
  buildInboxDm (sideText crate e.sender) (sideText crate e.recipient)
    e.plaintext e.receivedAt

/-- It is what was shown of the message. -/
theorem loaded_drainedRow {d : Drained} {side : Address}
    (h : d.dm.envelope.toSide = some side) :
    loaded crate (drainedRow d) = d.event crate := by
  unfold loaded Drained.event drainedRow entryOfRow
  rw [h]
  rfl

/-- The messages of a side, the first of those with one sender and nonce. -/
def storedFor (side : Address) (drained : List Drained) : List Drained :=
  (Rows.firsts storedKey drained).filter fun d =>
    decide (d.dm.envelope.toSide = some side)

/-- The rows of a side are those of its messages. -/
theorem rows_for {w : InboxWorld} (h : HistoryInv w) (side : Address) :
    (w.store.rows.filter fun r => decide (r.1.1 = side))
      = (storedFor side w.drained).map drainedRow := by
  rw [h.rows, List.filter_map, storedFor]
  congr 1
  refine List.filter_congr fun d hd => ?_
  obtain ⟨k, hk⟩ := Rows.key_of_mem_firsts hd
  have hrow := drainedRow_key hk
  unfold storedKey Drained.entry at hk
  split at hk
  case isFalse => cases hk
  case isTrue =>
    rw [Option.map_map, Option.map_eq_some_iff] at hk
    obtain ⟨recipient, hto, rfl⟩ := hk
    rw [Function.comp_apply, hrow, hto]
    simp

/-- In every run, over any number of ends and starts of the process: the
history of a side is loaded, newest first, and consists of the events that
were shown when its messages came in, the first for each sender and nonce
among those whose insert went through; and of each life everything that was
drained was shown in its order, but for the last at most. -/
theorem history_as_shown (crate : Bech32) (unicode : Unicode)
    (order : OrderBy newestFirst) (hcrate : ImplementsBip350 crate)
    (hunicode : LowersAsUnicode unicode) (w : InboxWorld)
    (acts : List InboxAction)
    (hrun : run (inboxStep crate) .init acts = some w) (side : Address) :
    ∃ history, loadInboxHistory crate unicode order (some w.store)
        (sideText crate side) = .ok history
      ∧ history.Perm
        ((storedFor side w.drained).map (Drained.event crate))
      ∧ history.Pairwise
        (fun a b => b.receivedAt.toInt64 ≤ a.receivedAt.toInt64)
      ∧ (w.shown.map Prod.fst).Sublist w.drained
      ∧ (∀ life, ∃ missed : Option Drained, ofLife life w.drained
        = ofLife life (w.shown.map Prod.fst) ++ missed.toList)
      ∧ ∀ x ∈ w.shown, x.2 = x.1.event crate := by
  have hinv := historyInv_run hrun
  have hload : loadInboxHistory crate unicode order (some w.store)
      (sideText crate side) = .ok ((order.sort (w.store.rows.filter fun r =>
        decide (r.1.1 = side))).map (loaded crate)) := by
    unfold loadInboxHistory
    dsimp only
    rw [decodeSideAddress_sideText hcrate hunicode]
    dsimp only
    unfold InboxStore.listFor
    rw [List.map_map]
    rfl
  refine ⟨_, hload, ?_, ?_, hinv.sublist, fun life => ?_,
    (inboxInv_run hrun).events⟩
  · refine ((order.perm _).map _).trans (.of_eq ?_)
    rw [rows_for hinv, List.map_map]
    refine List.map_congr_left fun d hd => ?_
    exact loaded_drainedRow (of_decide_eq_true (List.mem_filter.mp hd).2)
  · rw [List.pairwise_map]
    refine (order.sorted _).imp fun {a b} h => ?_
    have hclock (r : InboxKey × InboxRow) :
        (loaded crate r).receivedAt.toInt64 = r.2.receivedAt :=
      Int64.toInt64_toUInt64 _
    rw [hclock, hclock]
    exact h
  · obtain ⟨missed, hlife, -⟩ := hinv.missed (inboxInv_run hrun) life
    exact ⟨missed, hlife⟩

/-- After the process has ended. -/
theorem history_as_shown_greeting :
    ∃ w history, run (inboxStep bip350) .init [.opened 0 greeting, .enter 0,
        .receive 7, .insert true, .emit, .quit] = some w
      ∧ loadInboxHistory bip350 kelvinTable (.stable newestFirst)
        (some w.store) (sideText bip350 (Bytes.fill 32 2)) = .ok history
      ∧ history.length = 1 := by
  obtain ⟨w, hrun, hstored⟩ : ∃ w, run (inboxStep bip350) .init
      [.opened 0 greeting, .enter 0, .receive 7, .insert true, .emit, .quit]
        = some w
      ∧ (storedFor (Bytes.fill 32 2) w.drained).length = 1 :=
    ⟨_, rfl, rfl⟩
  obtain ⟨history, hload, hperm, -⟩ := history_as_shown bip350 kelvinTable
    (.stable newestFirst) bip350_implements kelvinTable_lowers w _ hrun
    (Bytes.fill 32 2)
  refine ⟨w, history, hrun, hload, ?_⟩
  rw [hperm.length_eq, List.length_map, hstored]

end Sidevers.Proofs
