/-
Restarting the replay cache from its journal.

At any time the cache that was restarted, the cache that never was and the
journal have the same live entries (`SameLive`). They differ in what has
expired: the caches drop an entry at their next sweep, the journal keeps a row
that a restart has skipped, one second older than it may load, until the next
restart. None of it is looked at again, since time does not go back. The trim
of `preload` has nothing to do: the live rows were entries of a cache within
its cap.
-/
import Sidevers.Net.ReplayJournal
import Sidevers.Proofs.CborReads
import Mathlib.Data.List.Perm.Basic

namespace Sidevers.Proofs

open Sidevers.Core
open Sidevers.Net

/-- One rule for choosing among equally old entries: it goes by which entries
there are, not by how they are listed. -/
def FixedRule (o : IterOrder) : Prop :=
  ∀ entries entries' : List Entry, entries.Perm entries' →
    (entries.map Prod.fst).Nodup →
      ReplayCache.findOldestIn o entries = ReplayCache.findOldestIn o entries'

-- ============================================================ the table

theorem mem_applyCall_record {rows : List JournalRow} {key : Key}
    {firstSeen : Nat} {r : JournalRow} :
    r ∈ applyCall rows (.record key firstSeen)
      ↔ r = (key, asI64 firstSeen) ∨ r ∈ rows ∧ r.1 ≠ key := by
  simp [applyCall]

theorem mem_applyCall_evict {rows : List JournalRow} {key : Key}
    {r : JournalRow} :
    r ∈ applyCall rows (.evict key) ↔ r ∈ rows ∧ r.1 ≠ key := by
  simp [applyCall]

/-- The primary key. -/
theorem nodup_applyCall {rows : List JournalRow} (call : JournalCall)
    (h : (rows.map Prod.fst).Nodup) :
    ((applyCall rows call).map Prod.fst).Nodup := by
  cases call with
  | record key firstSeen =>
      rw [applyCall, List.map_cons, List.nodup_cons]
      refine ⟨?_, h.sublist (List.filter_sublist.map _)⟩
      simp
  | evict key => exact h.sublist (List.filter_sublist.map _)

theorem mem_foldl_evict {keys : List Key} :
    ∀ {rows : List JournalRow} {r : JournalRow},
      r ∈ (keys.map JournalCall.evict).foldl applyCall rows
        ↔ r ∈ rows ∧ r.1 ∉ keys := by
  induction keys with
  | nil => simp
  | cons key keys ih =>
      intro rows r
      rw [List.map_cons, List.foldl_cons, ih, mem_applyCall_evict]
      simp only [List.mem_cons, not_or, and_assoc]

theorem nodup_foldl_applyCall {calls : List JournalCall} :
    ∀ {rows : List JournalRow}, (rows.map Prod.fst).Nodup →
      ((calls.foldl applyCall rows).map Prod.fst).Nodup := by
  induction calls with
  | nil => exact fun h => h
  | cons call calls ih => exact fun h => ih (nodup_applyCall call h)

/-- A call of an attached journal changes the table. -/
theorem rows_append {c : JournaledCache} {cache : ReplayCache}
    {calls : List JournalCall} (h : c.cache.journal.isSome)
    (hcalls : cache.journal = c.cache.journalAppend calls) :
    JournaledCache.rows { c with cache := cache }
      = calls.foldl applyCall c.rows := by
  obtain ⟨log, hlog⟩ := Option.isSome_iff_exists.mp h
  simp only [JournaledCache.rows, hcalls, ReplayCache.journalAppend, hlog,
    Option.map_some, Option.getD_some, List.foldl_append]

-- ========================================================= the relation

/-- A cache that was never restarted, and a journaled one, at a time: they
and the table agree on the entries that have not expired. -/
structure SameLive (now : Nat) (a : ReplayCache) (c : JournaledCache) :
    Prop where
  ttl : c.cache.ttl = a.ttl
  maxEntries : c.cache.maxEntries = a.maxEntries
  attached : c.cache.journal.isSome
  memory : ∀ e, a.alive now e = true →
    (e ∈ a.entries ↔ e ∈ c.cache.entries)
  journal : ∀ e, e.2 ≤ now → a.alive now e = true →
    (e ∈ c.cache.entries ↔ (e.1, asI64 e.2) ∈ c.rows)
  /-- Entries and rows are of the past. -/
  seen : ∀ e ∈ c.cache.entries, e.2 ≤ now
  past : ∀ r ∈ c.rows, ∃ t ≤ now, r.2 = asI64 t
  primary : (c.rows.map Prod.fst).Nodup

theorem sameLive_start (ttl maxEntries : Nat) :
    SameLive 0 (JournaledCache.start ttl maxEntries).cache
      (.start ttl maxEntries) where
  ttl := rfl
  maxEntries := rfl
  attached := rfl
  memory := fun _ _ => Iff.rfl
  journal := fun e _ _ => by
    simp [JournaledCache.start, JournaledCache.rows, ReplayCache.setJournal,
      ReplayCache.withCapacity]
  seen := fun e he => absurd he List.not_mem_nil
  past := fun r hr => absurd hr List.not_mem_nil
  primary := List.nodup_nil

theorem alive_of_later {c : ReplayCache} {now now' : Nat} {e : Entry}
    (hle : now ≤ now') (h : c.alive now' e = true) : c.alive now e = true := by
  simp only [ReplayCache.alive, decide_eq_true_eq] at h ⊢
  omega

theorem SameLive.later {now now' : Nat} {a : ReplayCache}
    {c : JournaledCache} (h : SameLive now a c) (hle : now ≤ now')
    (hnow : now' < 2 ^ 63) : SameLive now' a c where
  ttl := h.ttl
  maxEntries := h.maxEntries
  attached := h.attached
  memory := fun e he => h.memory e (alive_of_later hle he)
  journal := fun e hpast he => by
    by_cases hearly : e.2 ≤ now
    · exact h.journal e hearly (alive_of_later hle he)
    · refine iff_of_false (fun hmem => hearly (h.seen e hmem)) fun hrow => ?_
      obtain ⟨t, ht, heq⟩ := h.past _ hrow
      have := asI64_inj (by omega) (by omega) heq
      omega
  seen := fun e he => (h.seen e he).trans hle
  past := fun r hr => by
    obtain ⟨t, ht, hrow⟩ := h.past r hr
    exact ⟨t, ht.trans hle, hrow⟩
  primary := h.primary

/-- Distinct keys make distinct entries. -/
theorem nodup_entries (c : ReplayCache) : c.entries.Nodup :=
  List.Nodup.of_map _ c.nodup

-- ============================================================ the steps

section steps

variable {o : IterOrder} {now : Nat} {a : ReplayCache} {c : JournaledCache}

theorem mem_sweep {c : ReplayCache} {e : Entry} :
    e ∈ (c.sweep now).entries ↔ e ∈ c.entries ∧ c.alive now e = true :=
  List.mem_filter

/-- The test goes by the TTL alone. -/
theorem SameLive.alive_iff (h : SameLive now a c) (e : Entry) :
    c.cache.alive now e = a.alive now e := by
  simp only [ReplayCache.alive, h.ttl]

/-- After a sweep the caches have the same entries. -/
theorem SameLive.sweep_perm (h : SameLive now a c) :
    (a.sweep now).entries.Perm (c.cache.sweep now).entries := by
  refine (List.perm_ext_iff_of_nodup (nodup_entries _)
    (nodup_entries _)).mpr fun e => ?_
  rw [mem_sweep, mem_sweep, h.alive_iff]
  exact and_congr_left (h.memory e)

/-- The rows a sweep evicts are of expired entries. -/
theorem SameLive.sweep (h : SameLive now a c) :
    SameLive now (a.sweep now) (c.sweep now) := by
  have hrows : (c.sweep now).rows = (((c.cache.entries.filter fun e =>
      !c.cache.alive now e).map Prod.fst).map .evict).foldl applyCall
        c.rows := by
    rw [List.map_map]
    exact rows_append h.attached rfl
  constructor
  · exact h.ttl
  · exact h.maxEntries
  · simpa [JournaledCache.sweep, ReplayCache.sweep,
      ReplayCache.journalAppend] using h.attached
  · intro e _
    exact h.sweep_perm.mem_iff
  · intro e hpast he
    have halive : c.cache.alive now e = true := (h.alive_iff e).trans he
    rw [hrows, mem_foldl_evict, ← h.journal e hpast he]
    refine mem_sweep.trans (and_congr_right fun hmem => iff_of_true halive ?_)
    -- an expired entry of this key would be this one
    intro hexpired
    obtain ⟨e', he', hkey⟩ := List.mem_map.mp hexpired
    rw [List.mem_filter] at he'
    have hsame : e' = e :=
      List.inj_on_of_nodup_map c.cache.nodup he'.1 hmem hkey
    rw [hsame, halive] at he'
    exact absurd he'.2 (by decide)
  · exact fun e he => h.seen e (mem_sweep.mp he).1
  · intro r hr
    rw [hrows, mem_foldl_evict] at hr
    exact h.past r hr.1
  · rw [hrows]
    exact nodup_foldl_applyCall h.primary

/-- What the cap costs. -/
theorem mem_insertNew {c : ReplayCache} {key : Key}
    {hvacant : ¬ c.holds key} {e : Entry} :
    e ∈ (c.insertNew o now key hvacant).entries
      ↔ e = (key, now) ∨ e ∈ c.makeRoom o := List.mem_cons

theorem makeRoom_perm (ho : FixedRule o) {a b : ReplayCache}
    (hmax : b.maxEntries = a.maxEntries) (h : a.entries.Perm b.entries) :
    (a.makeRoom o).Perm (b.makeRoom o) := by
  simp only [ReplayCache.makeRoom, hmax, ← h.length_eq, ← ho _ _ h a.nodup]
  split
  · exact h
  · cases ReplayCache.findOldestIn o a.entries with
    | none => exact h
    | some oldest => exact h.filter _

/-- The journal follows the eviction for the cap. -/
theorem mem_makeRoomCalls {b : ReplayCache} {rows : List JournalRow}
    {e : Entry} (h : e ∈ b.entries ↔ (e.1, asI64 e.2) ∈ rows) :
    e ∈ b.makeRoom o
      ↔ (e.1, asI64 e.2) ∈ (b.makeRoomCalls o).foldl applyCall rows := by
  unfold ReplayCache.makeRoom ReplayCache.makeRoomCalls
  split
  · exact h
  · cases ReplayCache.findOldestIn o b.entries with
    | none => exact h
    | some oldest =>
        simp [ReplayCache.removeKey, mem_applyCall_evict, h]

theorem makeRoomCalls_subset {b : ReplayCache} {rows : List JournalRow} :
    (b.makeRoomCalls o).foldl applyCall rows ⊆ rows := by
  unfold ReplayCache.makeRoomCalls
  split
  · exact List.Subset.refl _
  · cases ReplayCache.findOldestIn o b.entries with
    | none => exact List.Subset.refl _
    | some oldest => exact List.filter_subset_self _

/-- A new key goes into the caches and into the table. -/
theorem SameLive.insertNew (ho : FixedRule o) (hnow : now < 2 ^ 63)
    (h : SameLive now a c) (hsame : a.entries.Perm c.cache.entries)
    {key : Key} (hvacant : ¬ a.holds key)
    (hvacant' : ¬ c.cache.holds key) :
    SameLive now (a.insertNew o now key hvacant)
      { c with cache := c.cache.insertNew o now key hvacant' } := by
  have hrows : JournaledCache.rows
      { c with cache := c.cache.insertNew o now key hvacant' }
      = applyCall ((c.cache.makeRoomCalls o).foldl applyCall c.rows)
          (.record key now) := by
    rw [rows_append h.attached rfl, List.foldl_append]
    rfl
  constructor
  · exact h.ttl
  · exact h.maxEntries
  · simpa [ReplayCache.insertNew, ReplayCache.journalAppend] using h.attached
  · intro e _
    rw [mem_insertNew, mem_insertNew,
      (makeRoom_perm ho h.maxEntries hsame).mem_iff]
  · intro e hpast he
    rw [hrows, mem_applyCall_record, mem_insertNew,
      mem_makeRoomCalls (h.journal e hpast he)]
    constructor
    · rintro (rfl | hrow)
      · exact Or.inl rfl
      · refine Or.inr ⟨hrow, fun hkey => hvacant' ?_⟩
        have hmem := (h.journal e hpast he).mpr (makeRoomCalls_subset hrow)
        exact List.mem_map.mpr ⟨e, hmem, hkey⟩
    · rintro (heq | ⟨hrow, -⟩)
      · obtain ⟨hkey, htime⟩ := Prod.mk.inj heq
        have htime := asI64_inj (by omega) (by omega) htime
        exact Or.inl (Prod.ext hkey htime)
      · exact Or.inr hrow
  · intro e he
    rcases List.mem_cons.mp he with rfl | hmem
    · exact Nat.le_refl _
    · exact h.seen e ((ReplayCache.makeRoom_sublist ..).subset hmem)
  · intro r hr
    rw [hrows, mem_applyCall_record] at hr
    rcases hr with rfl | ⟨hr, -⟩
    · exact ⟨now, Nat.le_refl _, rfl⟩
    · exact h.past r (makeRoomCalls_subset hr)
  · rw [hrows]
    exact nodup_applyCall _ (nodup_foldl_applyCall h.primary)

/-- Both caches answer an `observe` alike and stay alike. -/
theorem SameLive.observe (ho : FixedRule o) (hnow : now < 2 ^ 63)
    (h : SameLive now a c) (key : Key) :
    (a.observe o now key).1 = (c.observe o now key).1
      ∧ SameLive now (a.observe o now key).2 (c.observe o now key).2 := by
  have hsame := h.sweep_perm
  have hholds : (a.sweep now).holds key ↔ (c.cache.sweep now).holds key :=
    (hsame.map Prod.fst).mem_iff
  simp only [JournaledCache.observe, ReplayCache.observe]
  by_cases hheld : (a.sweep now).holds key
  · rw [dif_pos hheld, dif_pos (hholds.mp hheld)]
    exact ⟨rfl, h.sweep⟩
  · rw [dif_neg hheld, dif_neg (mt hholds.mpr hheld)]
    exact ⟨rfl, h.sweep.insertNew ho hnow hsame hheld (mt hholds.mpr hheld)⟩

-- ========================================================== the restart

/-- The entries a fresh cache is filled with. -/
theorem mem_foldl_preloadInsert {ttl : Nat} {rows : List Entry} :
    ∀ {entries : List Entry},
      ((rows ++ entries).map Prod.fst).Nodup → ∀ e,
      (e ∈ rows.foldl (ReplayCache.preloadInsert ttl now) entries
        ↔ e ∈ entries ∨ e ∈ rows ∧ now - e.2 < ttl) := by
  induction rows with
  | nil => simp
  | cons row rows ih =>
      intro entries hnodup e
      rw [List.foldl_cons, ReplayCache.preloadInsert]
      have hkey : ∀ e ∈ entries, e.1 ≠ row.1 := by
        intro e he heq
        rw [List.cons_append, List.map_cons, List.nodup_cons] at hnodup
        refine hnodup.1 (List.mem_map.mpr ⟨e, ?_, heq⟩)
        exact List.mem_append_right _ he
      have hkept : ReplayCache.removeKey row.1 entries = entries :=
        List.filter_eq_self.mpr fun e he => by simp [hkey e he]
      split
      case isTrue hold =>
        rw [ih (hnodup.sublist ((List.sublist_cons_self ..).map _)),
          List.mem_cons]
        refine or_congr_right ⟨fun h => ⟨Or.inr h.1, h.2⟩, ?_⟩
        rintro ⟨rfl | hmem, hlive⟩
        · omega
        · exact ⟨hmem, hlive⟩
      case isFalse hlive =>
        have hperm : (rows ++ row :: entries).Perm (row :: rows ++ entries) :=
          List.perm_middle
        rw [hkept, ih ((hperm.map Prod.fst).nodup_iff.mpr hnodup),
          List.mem_cons, List.mem_cons]
        constructor
        · rintro ((rfl | hmem) | hmem)
          · exact Or.inr ⟨Or.inl rfl, by omega⟩
          · exact Or.inl hmem
          · exact Or.inr ⟨Or.inr hmem.1, hmem.2⟩
        · rintro (hmem | ⟨rfl | hmem, hage⟩)
          · exact Or.inl (Or.inr hmem)
          · exact Or.inl (Or.inl rfl)
          · exact Or.inr ⟨hmem, hage⟩

/-- Within the cap there is nothing to trim. -/
theorem trim_of_le {maxEntries : Nat} {entries : List Entry}
    (h : entries.length ≤ maxEntries) (fuel : Nat) :
    ReplayCache.trim o maxEntries fuel entries = entries := by
  cases fuel with
  | zero => rfl
  | succ fuel => rw [ReplayCache.trim, if_pos h]

/-- What `load_active` reads back of the live rows. -/
theorem SameLive.mem_selectRows (hnow : now < 2 ^ 63) (h : SameLive now a c)
    (select : SelectOrder) (e : Entry) (hlive : a.alive now e = true) :
    e ∈ selectRows select (dropStale now c.cache.ttl c.rows)
      ↔ e ∈ c.cache.entries := by
  have hage : now - e.2 < c.cache.ttl := by
    simpa [ReplayCache.alive, h.ttl] using hlive
  have hread : ∀ r, r ∈ select.order (dropStale now c.cache.ttl c.rows)
      ↔ r ∈ c.rows ∧ ¬ r.2 < asI64 (now - c.cache.ttl) := by
    intro r
    rw [(select.perm _).mem_iff, dropStale, List.mem_filter]
    simp
  rw [selectRows, List.mem_map]
  constructor
  · rintro ⟨r, hr, rfl⟩
    obtain ⟨hrow, -⟩ := (hread r).mp hr
    obtain ⟨t, ht, htime⟩ := h.past r hrow
    have hback : asU64 r.2 = t := by
      rw [htime, asU64_asI64 (by omega)]
    refine (h.journal _ (hback ▸ ht) hlive).mpr ?_
    rw [hback, ← htime]
    exact hrow
  · intro hmem
    have hpast := h.seen e hmem
    refine ⟨(e.1, asI64 e.2), (hread _).mpr ⟨?_, ?_⟩, ?_⟩
    · exact (h.journal e hpast hlive).mp hmem
    · rw [asI64_lt_iff (by omega) (by omega)]
      omega
    · rw [asU64_asI64 (by omega)]

/-- The entries of a restarted cache: what was live. -/
theorem SameLive.mem_restart (hnow : now < 2 ^ 63) (h : SameLive now a c)
    (select : SelectOrder) (e : Entry) :
    e ∈ (c.restart o select now).cache.entries
      ↔ e ∈ c.cache.entries ∧ a.alive now e = true := by
  have hread := h.mem_selectRows hnow select
  have hkeys : ((selectRows select (dropStale now c.cache.ttl c.rows)).map
      Prod.fst).Nodup := by
    have hperm := (select.perm (dropStale now c.cache.ttl c.rows)).map Prod.fst
    rw [selectRows, List.map_map]
    exact hperm.nodup_iff.mpr (h.primary.sublist (List.filter_sublist.map _))
  have hentries : (c.restart o select now).cache.entries
      = ReplayCache.trim o (max c.cache.maxEntries 1) _
          ((selectRows select (dropStale now c.cache.ttl c.rows)).foldl
            (ReplayCache.preloadInsert c.cache.ttl now) []) := rfl
  generalize selectRows select (dropStale now c.cache.ttl c.rows) = rows
    at hread hkeys hentries
  have hloaded : ∀ e, e ∈ rows.foldl
      (ReplayCache.preloadInsert c.cache.ttl now) []
      ↔ e ∈ c.cache.entries ∧ a.alive now e = true := by
    intro e
    have hage : now - e.2 < c.cache.ttl ↔ a.alive now e = true := by
      simp [ReplayCache.alive, h.ttl]
    rw [mem_foldl_preloadInsert (by rwa [List.append_nil]), hage]
    constructor
    · rintro (hnil | ⟨hmem, hlive⟩)
      · exact absurd hnil List.not_mem_nil
      · exact ⟨(hread e hlive).mp hmem, hlive⟩
    · rintro ⟨hmem, hlive⟩
      exact Or.inr ⟨(hread e hlive).mpr hmem, hlive⟩
  have hfits : (rows.foldl (ReplayCache.preloadInsert c.cache.ttl now)
      []).length ≤ max c.cache.maxEntries 1 := by
    have hnodup : ((rows.foldl (ReplayCache.preloadInsert c.cache.ttl now)
        []).map Prod.fst).Nodup :=
      ReplayCache.nodup_foldl_preloadInsert List.nodup_nil
    have hsub := List.subperm_of_subset (.of_map _ hnodup)
      fun e he => ((hloaded e).mp he).1
    exact hsub.length_le.trans (c.cache.bounded.trans (Nat.le_max_left ..))
  rw [hentries, trim_of_le hfits, hloaded]

/-- A restart loses no live entry and brings none back. -/
theorem SameLive.restart (hnow : now < 2 ^ 63) (h : SameLive now a c)
    (select : SelectOrder) : SameLive now a (c.restart o select now) := by
  have hrows : (c.restart o select now).rows
      = dropStale now c.cache.ttl c.rows := rfl
  constructor
  · exact h.ttl
  · exact (Nat.max_eq_left c.cache.roomy).trans h.maxEntries
  · rfl
  · intro e hlive
    rw [h.mem_restart hnow, h.memory e hlive]
    exact (and_iff_left hlive).symm
  · intro e hpast hlive
    rw [h.mem_restart hnow, and_iff_left hlive, hrows, dropStale,
      List.mem_filter, h.journal e hpast hlive]
    refine (and_iff_left ?_).symm
    have hage : now - e.2 < c.cache.ttl := by
      simpa [ReplayCache.alive, h.ttl] using hlive
    have hkept : ¬ asI64 e.2 < asI64 (now - c.cache.ttl) := by
      rw [asI64_lt_iff (by omega) (by omega)]
      omega
    simp [hkept]
  · exact fun e he => h.seen e ((h.mem_restart hnow select e).mp he).1
  · intro r hr
    exact h.past r (List.mem_filter.mp hr).1
  · exact h.primary.sublist (List.filter_sublist.map _)

/-- Restarts change no later answer. -/
theorem SameLive.answers (ho : FixedRule o) {calls : List CacheCall} :
    ∀ {now : Nat} {u c : JournaledCache}, SameLive now u.cache c →
      (∀ call ∈ calls, now ≤ call.now) →
      (calls.map CacheCall.now).Pairwise (· ≤ ·) →
      (∀ call ∈ calls, call.now < 2 ^ 63) →
      c.answers o calls = u.answers o (calls.filter CacheCall.isCall) := by
  induction calls with
  | nil => exact fun _ _ _ _ => rfl
  | cons call rest ih =>
      intro now u c h hlater hmono hbound
      rw [List.map_cons, List.pairwise_cons] at hmono
      have hnow := hbound call List.mem_cons_self
      have h := h.later (hlater call List.mem_cons_self) hnow
      have hrest : ∀ u' c' : JournaledCache,
          SameLive call.now u'.cache c' → c'.answers o rest
            = u'.answers o (rest.filter CacheCall.isCall) := fun _ _ h' =>
        ih h' (fun call' hmem => hmono.1 _ (List.mem_map_of_mem hmem)) hmono.2
          fun call' hmem => hbound call' (List.mem_cons_of_mem _ hmem)
      cases call with
      | observe now key =>
          obtain ⟨hanswer, hnext⟩ := h.observe ho hnow key
          rw [List.filter_cons_of_pos rfl]
          exact congrArg₂ List.cons hanswer.symm
            (hrest (u.observe o now key).2 (c.observe o now key).2 hnext)
      | sweep now =>
          rw [List.filter_cons_of_pos rfl]
          exact hrest (u.sweep now) (c.sweep now) h.sweep
      | restart select now =>
          rw [List.filter_cons_of_neg Bool.false_ne_true]
          exact hrest u (c.restart o select now) (h.restart hnow select)

end steps

/-- No call changes the cap. -/
theorem steps_maxEntries (o : IterOrder) (calls : List CacheCall) :
    ∀ c : JournaledCache, (c.steps o calls).cache.maxEntries
      = c.cache.maxEntries := by
  induction calls with
  | nil => exact fun c => rfl
  | cons call rest ih =>
      intro c
      refine (ih _).trans ?_
      cases call with
      | observe now key =>
          simp only [JournaledCache.step, JournaledCache.observe,
            ReplayCache.observe]
          split <;> rfl
      | sweep now => rfl
      | restart select now => exact Nat.max_eq_left c.cache.roomy

/-- A cache that is restarted from its journal, whenever and however often,
answers every `observe` as one that never is, and keeps within its cap. -/
theorem restart_equivalent (o : IterOrder) (ho : FixedRule o)
    (ttl maxEntries : Nat) (calls : List CacheCall)
    (hmono : (calls.map CacheCall.now).Pairwise (· ≤ ·))
    (hbound : ∀ call ∈ calls, call.now < 2 ^ 63) :
    (JournaledCache.start ttl maxEntries).answers o calls
        = (JournaledCache.start ttl maxEntries).answers o
            (calls.filter CacheCall.isCall)
      ∧ ∀ done, done <+: calls →
        ((JournaledCache.start ttl maxEntries).steps o
          done).cache.entries.length ≤ max maxEntries 1 := by
  constructor
  · exact (sameLive_start ttl maxEntries).answers ho
      (fun call _ => Nat.zero_le _) hmono hbound
  · intro done _
    have hcap := steps_maxEntries o done (.start ttl maxEntries)
    exact (ReplayCache.bounded _).trans_eq hcap

-- ============================================================= a rule

/-- The bytes of an entry's key. -/
def keyBytes (e : Entry) : List UInt8 := e.1.fromSide.val ++ e.1.nonce.val

theorem keyBytes_inj {e e' : Entry} (h : keyBytes e = keyBytes e') :
    e.1 = e'.1 := by
  obtain ⟨⟨⟨sender, hs⟩, ⟨nonce, hn⟩⟩, t⟩ := e
  obtain ⟨⟨⟨sender', hs'⟩, ⟨nonce', hn'⟩⟩, t'⟩ := e'
  obtain ⟨rfl, rfl⟩ := List.append_inj h (hs.trans hs'.symm)
  rfl

/-- Entries in the order of their keys. -/
def byKeyBytes : IterOrder where
  order entries :=
    entries.mergeSort fun e e' => !decide (keyBytes e' < keyBytes e)
  perm entries := List.mergeSort_perm entries _

theorem fixedRule_byKeyBytes : FixedRule byKeyBytes := by
  intro entries entries' hperm hnodup
  have hsame : byKeyBytes.order entries = byKeyBytes.order entries' := by
    have hsorted := (byKeyBytes.perm entries).trans
      (hperm.trans (byKeyBytes.perm entries').symm)
    refine hsorted.eq_of_pairwise (fun e e' he he' hle hle' => ?_)
      (pairwise_mergeSort_key keyBytes entries)
      (pairwise_mergeSort_key keyBytes entries')
    have hmem := (byKeyBytes.perm entries).mem_iff.mp he
    have hmem' := hperm.mem_iff.mpr ((byKeyBytes.perm entries').mem_iff.mp he')
    exact List.inj_on_of_nodup_map hnodup hmem hmem'
      (keyBytes_inj (List.le_antisymm hle hle'))
  rw [ReplayCache.findOldestIn, ReplayCache.findOldestIn, hsame]

/-- A full cache, restarted when an entry is just too old and again. -/
def restartedCalls : List CacheCall :=
  [.observe 0 ⟨Bytes.fill _ 1, Bytes.fill _ 1⟩,
    .observe 9 ⟨Bytes.fill _ 1, Bytes.fill _ 2⟩,
    .restart ⟨id, fun _ => .refl _⟩ 600,
    .observe 600 ⟨Bytes.fill _ 1, Bytes.fill _ 1⟩,
    .observe 601 ⟨Bytes.fill _ 1, Bytes.fill _ 3⟩,
    .restart ⟨List.reverse, List.reverse_perm⟩ 601,
    .observe 602 ⟨Bytes.fill _ 1, Bytes.fill _ 1⟩]

theorem restart_equivalent_full :
    (JournaledCache.start 600 2).answers byKeyBytes restartedCalls
        = (JournaledCache.start 600 2).answers byKeyBytes
            (restartedCalls.filter CacheCall.isCall)
      ∧ ∀ done, done <+: restartedCalls →
        ((JournaledCache.start 600 2).steps byKeyBytes
          done).cache.entries.length ≤ max 2 1 :=
  restart_equivalent byKeyBytes fixedRule_byKeyBytes 600 2 restartedCalls
    (by decide) (by decide)

end Sidevers.Proofs
