/-
The one wire form of a profile, as far as it has one.

A profile that a side signs reads back from its wire form unless an extension
field holds a negative integer or a boolean, at any depth, or a list is longer
than a reader takes. Nothing is checked when it is signed.
-/
import Sidevers.Proofs.ContractForms
import Sidevers.Proofs.CborSkips

namespace Sidevers.Proofs

open Sidevers.Core
open Sidevers.Core.Cbor
open Sidevers.Lib

-- ================================================================= fields

/-- A value that may be null, told from a null by its first byte. -/
theorem readsIff_optional {α : Type} {missing : String}
    {r : Read (Option α)} {w : α → List UInt8} {p : α → Prop}
    (hmajor : ∀ a, ∃ ib tl, w a = ib :: tl ∧ ib ≠ simpleNull)
    {a : Option α} (hr : ∀ x ∈ a, ReadsIff (p x) r (w x) (some x)) :
    ReadsIff (∀ x ∈ a, p x) (do
      if (← ProfilePayload.peekOr missing) = simpleNull then
        let _ ← readBytesOrNull
        return none
      else r) (ProfilePayload.orNull w a) a := by
  cases a with
  | none =>
      refine ReadsIff.congr ?_ (iff_of_true trivial nofun)
      refine ReadsIff.peek (t := []) (Reads.iff (.pos rfl ?_))
      exact reads_readBytesOrNull_null.andThen (.pure none)
  | some a =>
      obtain ⟨ib, tl, hw, hne⟩ := hmajor a
      have h := hr a rfl
      show ReadsIff _ _ (w a) _
      rw [hw] at h ⊢
      refine ReadsIff.congr (.peek ?_) (p := p a) ?_
      · exact .neg hne h
      · simp

theorem list_major {m : UInt8} (hm : m.toNat < 8) (hne : m ≠ 7) (n : UInt64)
    (bs : List UInt8) :
    ∃ ib tl, writeHead (m <<< 5) n ++ bs = ib :: tl ∧ ib ≠ simpleNull := by
  obtain ⟨ib, tl, hhead, hmajor⟩ := writeHead_major hm n
  refine ⟨ib, tl ++ bs, ?_, not_null_of_major hmajor hne⟩
  rw [hhead]
  rfl

theorem reads_readOptional32 (field : String) (h : Option (Bytes 32)) :
    Reads (ProfilePayload.readOptional32 field)
      (ProfilePayload.orNull (fun h => bytes h.val) h) h := by
  cases h with
  | none => exact reads_readBytesOrNull_null.andThen (.pure none)
  | some h =>
      refine (reads_readBytesOrNull h.val).andThen ?_
      show Reads (if hlen : h.val.length = 32 then _ else _) _ _
      rw [dif_pos h.property]
      exact .pure (some h)

theorem length_pos_text (t : String) : 0 < (text t).length := by
  obtain ⟨ib, tl, htext, -⟩ := text_major t
  rw [htext]
  exact Nat.succ_pos _

theorem readsIff_readTextArray (items : List String) :
    ReadsIff (items.length ≤ maxCborEntries) (readArray readText)
      (ProfilePayload.encodeTextArray items) items := by
  refine .of_fits fun hfits => ?_
  unfold ProfilePayload.encodeTextArray at hfits ⊢
  have hlen := length_le_flatMap items length_pos_text
  rw [List.length_append] at hfits
  refine ((readsIff_readCount "array" (by decide) (by omega)).bind
    (reads_readTimes fun t _ => reads_readText t).iff).congr ?_
  exact and_iff_left trivial

theorem readsIff_readOptionalTextArray (links : Option (List String)) :
    ReadsIff (∀ items ∈ links, items.length ≤ maxCborEntries)
      ProfilePayload.readOptionalTextArray
      (ProfilePayload.orNull ProfilePayload.encodeTextArray links) links := by
  refine readsIff_optional (fun items => list_major (m := 4) (by decide)
    (by decide) _ _) fun items _ => ?_
  have h := (readsIff_readTextArray items).andThen
    (f := fun items => pure (some items)) (.pure (some items))
  rw [readArray, bind_assoc] at h
  exact h

/-- Texts in order, one after the other. -/
theorem reads_readTextSetLoop {ts : List String} {p : Option String}
    (hsorted : (p.toList ++ ts).Pairwise (· < ·)) :
    Reads (ProfilePayload.readTextSetLoop ts.length p) (ts.flatMap text)
      ts := by
  induction ts generalizing p with
  | nil => exact .pure []
  | cons t ts ih =>
      obtain ⟨hprev, hrest⟩ := pairwise_prev hsorted
      rw [List.flatMap_cons]
      refine (reads_readText t).bind (.neg ?_ ?_)
      · exact not_any_prev fun p hp =>
          decide_eq_false (not_le_of_gt (hprev p hp))
      · exact (ih (p := some t) hrest).andThen (.pure (t :: ts))

theorem readsIff_readTextSet (s : BTreeSet String) :
    ReadsIff (s.keys.length ≤ maxCborEntries) ProfilePayload.readTextSet
      (ProfilePayload.encodeTextArray s.keys) s := by
  refine .of_fits fun hfits => ?_
  unfold ProfilePayload.encodeTextArray at hfits ⊢
  have hlen := length_le_flatMap s.keys length_pos_text
  rw [List.length_append] at hfits
  have hloop := reads_readTextSetLoop (p := none) s.keys_sorted
  have hset : Reads (return BTreeSet.ofList s.keys) [] s := by
    rw [BTreeSet.ofList_keys]
    exact .pure s
  refine ((readsIff_readCount "array" (by decide) (by omega)).bind
    (hloop.andThen hset).iff).congr ?_
  exact and_iff_left trivial

-- ======================================================= extension fields

/-- An extension field. -/
def fieldEntry (e : String × Value) : MapEntry := ⟨key e.1, e.2.encode⟩

/-- Fields in the order of their encoded keys, one after the other. -/
theorem readsIff_readFieldsLoop {es : List (String × Value)}
    {p : Option (List UInt8)}
    (hsorted : (p.toList ++ es.map fun e => key e.1).Pairwise (· < ·)) :
    ReadsIff (∀ e ∈ es, e.2.All Skippable ∧ e.2.depth ≤ maxCborSkipDepth)
      (ProfilePayload.readFieldsLoop es.length p)
      ((es.map fieldEntry).flatMap fun e => e.key ++ e.value)
      (es.map fun e => (e.1, e.2.encode)) := by
  induction es generalizing p with
  | nil => exact (Reads.pure []).iff.congr (iff_of_true trivial nofun)
  | cons e es ih =>
      obtain ⟨hprev, hrest⟩ := pairwise_prev hsorted
      rw [List.map_cons, List.flatMap_cons, List.append_assoc]
      have hskip := readsIff_skipValueInner maxCborSkipDepth e.2
      have hloop := (ih (p := some (key e.1)) hrest).andThen
        (f := fun rest => pure ((e.1, e.2.encode) :: rest))
        (.pure ((e.1, e.2.encode) :: es.map fun e => (e.1, e.2.encode)))
      refine ((reads_readText e.1).iff.marked (.neg ?_
        (hskip.marked hloop))).congr ?_
      · exact not_any_prev fun p hp =>
          decide_eq_false (not_not.mpr (hprev p hp))
      · rw [List.forall_mem_cons]
        exact and_iff_right trivial

/-- The fields as a side gives them, whose values are CBOR. -/
def fieldsOf (values : BTreeMap String Value) :
    BTreeMap String (List UInt8) := values.mapValues Value.encode

/-- Fields a reader takes: within its limit, every value of a kind the
skipper takes. -/
structure FieldsFit (values : BTreeMap String Value) : Prop where
  count : values.entries.length ≤ maxCborEntries
  skippable : ∀ e ∈ values.entries, e.2.All Skippable

theorem readsIff_readFieldsMap {values : BTreeMap String Value}
    (hdepth : ∀ e ∈ values.entries, e.2.depth ≤ maxCborSkipDepth) :
    ReadsIff (FieldsFit values) (do
      let n ← readMapHeader
      let entries ← ProfilePayload.readFieldsLoop n none
      return some (entries.foldl (fun m e => m.insert e.1 e.2)
        BTreeMap.empty))
      (ProfilePayload.encodeFieldsSubmap (fieldsOf values))
      (some (fieldsOf values)) := by
  refine .of_fits fun hfits => ?_
  have hform : (fieldsOf values).entries.map (fun e => MapEntry.mk (key e.1) e.2)
      = values.entries.map fieldEntry := List.map_map
  unfold ProfilePayload.encodeFieldsSubmap at hfits ⊢
  rw [hform] at hfits ⊢
  have hlen : ∀ e ∈ values.entries, (key e.1).length < 2 ^ 64 := by
    intro e he
    refine Nat.lt_of_le_of_lt (length_entry_le (e := fieldEntry e) ?_) hfits
    exact (List.mergeSort_perm ..).mem_iff.mpr (List.mem_map_of_mem he)
  obtain ⟨es, hperm, hsort, hsorted, hfold⟩ :=
    sorted_entries values (f := fieldEntry) (fun _ => rfl) hlen
  rw [hsort] at hfits ⊢
  unfold encodeMap at hfits ⊢
  rw [List.length_map] at hfits ⊢
  have hcount := length_le_flatMap es
    (w := fun e => (fieldEntry e).key ++ (fieldEntry e).value) fun e => by
      rw [List.length_append]
      exact Nat.add_pos_left (length_pos_text e.1) _
  rw [List.length_append, List.flatMap_map] at hfits
  have hmap : Reads (return some ((es.map fun e => (e.1, e.2.encode)).foldl
      (fun m e => m.insert e.1 e.2) BTreeMap.empty)) []
      (some (fieldsOf values)) := by
    have hfold' := BTreeMap.foldl_insert_mapValues Value.encode es
      BTreeMap.empty
    rw [hfold] at hfold'
    rw [← show _ = fieldsOf values from hfold']
    exact .pure _
  refine ((readsIff_readCount "map" (by decide) (by omega)).bind
    ((readsIff_readFieldsLoop (p := none) hsorted).andThen hmap)).congr ?_
  rw [forall₂_and, hperm.length_eq]
  refine ⟨fun h => ⟨h.1, fun e he => h.2.1 e (hperm.mem_iff.mpr he)⟩,
    fun h => ⟨h.count, fun e he => h.skippable e (hperm.mem_iff.mp he),
      fun e he => hdepth e (hperm.mem_iff.mp he)⟩⟩

theorem readsIff_readOptionalFieldsMap {values : Option (BTreeMap String Value)}
    (hdepth : ∀ m ∈ values, ∀ e ∈ m.entries,
      e.2.depth ≤ maxCborSkipDepth) :
    ReadsIff (∀ m ∈ values, FieldsFit m) ProfilePayload.readOptionalFieldsMap
      (ProfilePayload.orNull ProfilePayload.encodeFieldsSubmap
        (values.map fieldsOf)) (values.map fieldsOf) := by
  have hmajor : ∀ m, ∃ ib tl,
      ProfilePayload.encodeFieldsSubmap m = ib :: tl ∧ ib ≠ simpleNull :=
    fun m => list_major (m := 5) (by decide) (by decide) _ _
  cases values with
  | none =>
      refine (readsIff_optional (p := fun _ => True) hmajor ?_).congr ?_
      · rintro _ ⟨⟩
      · exact iff_of_true (fun _ _ => trivial) nofun
  | some m =>
      refine (readsIff_optional (p := fun _ => FieldsFit m) hmajor ?_).congr ?_
      · rintro _ ⟨⟩
        exact readsIff_readFieldsMap (hdepth m rfl)
      · simp

/-- No list of the profile is longer than a reader takes. -/
structure ProfileFits (p : ProfilePayload) : Prop where
  links : ∀ items ∈ p.links, items.length ≤ maxCborEntries
  fields : ∀ m ∈ p.fields, m.entries.length ≤ maxCborEntries
  capabilities : p.capabilities.keys.length ≤ maxCborEntries

theorem endsIff_profile {p : ProfilePayload}
    {values : Option (BTreeMap String Value)}
    (hvalues : p.fields = values.map fieldsOf)
    (hdepth : ∀ m ∈ values, ∀ e ∈ m.entries,
      e.2.depth ≤ maxCborSkipDepth) :
    EndsIff (ProfileFits p
        ∧ ∀ m ∈ values, ∀ e ∈ m.entries, e.2.All Skippable)
      ProfilePayload.readFields p.toWireBytes p := by
  have hcount : 9 ≤ maxCborEntries := by decide
  have hfields := readsIff_readOptionalFieldsMap hdepth
  rw [← hvalues] at hfields
  have h : EndsIff ((∀ items ∈ p.links, items.length ≤ maxCborEntries)
      ∧ (∀ m ∈ values, FieldsFit m)
      ∧ p.capabilities.keys.length ≤ maxCborEntries ∧ True)
      ProfilePayload.readFields p.toWireBytes p := by
    refine (EndsIff.bind (reads_readCount "map" (by decide) hcount).iff
      (.neg (fun h => h rfl) ?_)).congr (and_iff_right trivial)
    refine .field (reads_optionalText _ p.bio) ?_
    refine .field (reads_optionalText _ p.name) ?_
    refine .field (reads_readExact _ p.side) ?_
    refine .fieldIff (readsIff_readOptionalTextArray p.links) ?_
    refine .field (reads_readOptional32 _ p.avatar) ?_
    refine .fieldIff hfields ?_
    refine .field (reads_readExact _ p.signature) ?_
    refine .field (reads_readU64 p.updatedAt) ?_
    exact .fieldIff (readsIff_readTextSet p.capabilities) .atEnd
  refine h.congr ⟨fun h => ⟨⟨h.1, ?_, h.2.2.1⟩, ?_⟩, fun h =>
    ⟨h.1.links, fun m hm => ⟨?_, h.2 m hm⟩, h.1.capabilities, trivial⟩⟩
  · intro m hm
    rw [hvalues] at hm
    obtain ⟨vs, hvs, rfl⟩ := Option.mem_map.mp hm
    exact (List.length_map _).trans_le (h.2.1 vs hvs).count
  · exact fun m hm => (h.2.1 m hm).skippable
  · have hfits := h.1.fields (fieldsOf m)
      (by rw [hvalues]; exact Option.mem_map_of_mem _ hm)
    exact (List.length_map _).symm.trans_le hfits

theorem accepted_profile {crypto : Crypto} {p : ProfilePayload}
    (hsig : crypto.verify p.side (crypto.blake3 p.encodeUnsigned) p.signature
      = .ok ()) {s : CborReader}
    (hread : ProfilePayload.readFields.on p.toWireBytes = .ok (p, s)) :
    ProfilePayload.fromWireBytes crypto p.toWireBytes = .ok p := by
  exact bind_ok hread (verified_canonical.mpr ⟨hsig, rfl, rfl⟩)

/-- What a side signs, with CBOR values nested no deeper than the skipper
goes, is accepted and gives the profile back iff no value in its extension
fields, at any depth, is a negative integer or a boolean and no list is
longer than a reader takes. -/
theorem profile_form {crypto : Crypto} (side : Signer crypto)
    (name : Option String) (avatar : Option (Bytes 32)) (bio : Option String)
    (links : Option (List String))
    (values : Option (BTreeMap String Value))
    (capabilities : BTreeSet String) (updatedAt : UInt64)
    (hdepth : ∀ m ∈ values, ∀ e ∈ m.entries,
      e.2.depth ≤ maxCborSkipDepth) :
    let p := ProfilePayload.sign side name avatar bio links
      (values.map fieldsOf) capabilities updatedAt
    p.toWireBytes.length < 2 ^ 64 →
    (ProfilePayload.fromWireBytes crypto p.toWireBytes = .ok p
      ↔ ProfileFits p
        ∧ ∀ m ∈ values, ∀ e ∈ m.entries, e.2.All Skippable) := by
  intro p hlen
  have hends := endsIff_profile (p := p) rfl hdepth
  constructor
  · intro h
    by_contra hnot
    obtain ⟨e, he⟩ := hends.fails hnot [] hlen
    obtain ⟨_, hread, -⟩ := ok_of_bind h
    cases he.symm.trans hread
  · intro h
    obtain ⟨s, hs⟩ := hends.reads h [] hlen
    exact accepted_profile (side.verifies _) hs

/-- A profile with a number, an array and a map in its one field. -/
theorem profile_form_signed :
    let p := ProfilePayload.sign (Signer.legible (Bytes.fill _ 1))
      (some "Alice") none none (some ["mailto:alice"])
      (some (fieldsOf (BTreeMap.empty.insert "seen"
        (.array [.uint 7, .map [(.text "a", .null)]])))) BTreeMap.empty 5
    ProfilePayload.fromWireBytes Crypto.legible p.toWireBytes = .ok p := by
  intro p
  have hfield : ∀ m ∈ some (BTreeMap.empty.insert "seen"
      (Value.array [.uint 7, .map [(.text "a", .null)]])), ∀ e ∈ m.entries,
      e.2.depth ≤ maxCborSkipDepth ∧ e.2.All Skippable := by
    rintro _ ⟨⟩ e he
    obtain rfl := List.mem_singleton.mp he
    exact ⟨by decide, by simp [Value.All, Value.AllItems, Value.AllEntries,
      Skippable, maxCborEntries]⟩
  refine (profile_form (Signer.legible (Bytes.fill _ 1)) (some "Alice") none
    none (some ["mailto:alice"]) _ BTreeMap.empty 5
    (fun m hm e he => (hfield m hm e he).1) (by decide +kernel)).mpr
    ⟨⟨?_, ?_, by decide⟩, fun m hm e he => (hfield m hm e he).2⟩
  · rintro _ ⟨⟩
    decide
  · rintro _ ⟨⟩
    decide

/-- A boolean field: signed, and refused. -/
theorem profile_form_boolean :
    let p := ProfilePayload.sign (Signer.legible (Bytes.fill _ 1)) none none
      none none (some (fieldsOf (BTreeMap.empty.insert "pinned"
        (.boolean true)))) BTreeMap.empty 5
    ProfilePayload.fromWireBytes Crypto.legible p.toWireBytes
      = .error (.cborDecode "expected bytes, got major 7") := by
  decide +kernel

end Sidevers.Proofs
