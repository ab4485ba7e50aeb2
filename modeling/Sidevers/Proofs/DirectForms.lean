/-
A direct message that carries a reference.

The body of such a message is skipped over, with a budget for the nesting of
the bytes; the decoder of references has a budget of its own, for the levels
of dependencies. A level of dependencies is two levels of bytes, so the one
does not cover the other: `Reference.span` is what a reference takes of the
skipper's budget.
-/
import Sidevers.Core.Direct
import Sidevers.Proofs.DeviceForms
import Sidevers.Proofs.ProfileForms

namespace Sidevers.Proofs

open Sidevers.Core
open Sidevers.Core.Cbor
open Sidevers.Lib
open Sidevers.Net

-- ============================================================= references

/-- How deep the bytes of a reference are nested: two levels for its
dependencies and those below them, one more where there are hints. -/
def span : Reference → Nat
  | .mk _ _ _ hints deps =>
      1 + max (if hints.isEmpty then 1 else 2) (1 + spanAll deps)
where
  /-- The deepest of the dependencies. -/
  spanAll : List Reference → Nat
    | [] => 0
    | d :: rest => max (span d) (spanAll rest)

/-- A reference whose lists are within the reader's limit, with fewer levels
of dependencies than this. -/
def ReferenceFits : Nat → Reference → Prop
  | 0, _ => False
  | depth + 1, .mk _ _ _ hints deps =>
      hints.length ≤ maxCborEntries ∧ deps.length ≤ maxCborEntries
        ∧ ∀ d ∈ deps, ReferenceFits depth d

theorem reads_referenceInner {depth : Nat} {r : Reference}
    (h : ReferenceFits depth r) :
    Reads (Reference.decodeInner depth) r.encode r := by
  have hcount : 5 ≤ maxCborEntries := by decide
  induction depth generalizing r with
  | zero => exact h.elim
  | succ depth ih =>
      obtain ⟨hash, size, mime, hints, deps⟩ := r
      obtain ⟨hhints, hdeps, hall⟩ := h
      rw [Reference.encode, encodeArray_encodeAll]
      refine .map hcount ?_
      refine .field (reads_readArray hdeps fun d hd => ih (hall d hd)) ?_
      refine .field (reads_readExact _ hash) ?_
      refine .field (reads_readU64 size) ?_
      refine .field (reads_readText mime) ?_
      exact .field (reads_readArray hhints fun b _ => reads_readExact _ b)
        (.pure _)

theorem returns_reference (depth : Nat) :
    Returns (Reference.decodeInner depth) (ReferenceFits depth) := by
  induction depth with
  | zero => exact fun _ _ _ hrun => nomatch hrun
  | succ depth ih =>
      refine (Returns.any _).bind fun _ _ => ?_
      refine .field (returns_readArray ih) fun deps hdeps => ?_
      refine .field (.any _) fun hash _ => .field (.any _) fun size _ => ?_
      refine .field (.any _) fun mime _ => ?_
      refine .field (returns_readArray (.any _)) fun hints hhints => .pure ?_
      exact ⟨hhints.1, hdeps.1, hdeps.2⟩

/-- The value that a reference's bytes encode. -/
def referenceValue : Reference → Value
  | .mk hash size mime hints deps =>
      .map
        [(.text "deps", .array (valuesOf deps)),
         (.text "hash", .bytes hash.val),
         (.text "size", .uint size),
         (.text "type", .text mime),
         (.text "hints", .array (hints.map fun h => .bytes h.val))]
where
  /-- The values of the dependencies. -/
  valuesOf : List Reference → List Value
    | [] => []
    | d :: rest => referenceValue d :: valuesOf rest

theorem valuesOf_eq (deps : List Reference) :
    referenceValue.valuesOf deps = deps.map referenceValue := by
  induction deps with
  | nil => rfl
  | cons d deps ih =>
      rw [List.map_cons, ← ih]
      rfl

theorem array_encode {α : Type} {w : α → List UInt8} {f : α → Value}
    (xs : List α) (h : ∀ x ∈ xs, (f x).encode = w x) :
    (Value.array (xs.map f)).encode = encodeArray w xs := by
  rw [Value.encode, Value.encodeItems_eq, List.length_map, List.flatMap_map,
    List.flatMap_congr h]
  rfl

theorem referenceValue_encode {depth : Nat} {r : Reference}
    (h : ReferenceFits depth r) : (referenceValue r).encode = r.encode := by
  induction depth generalizing r with
  | zero => exact h.elim
  | succ depth ih =>
      obtain ⟨hash, size, mime, hints, deps⟩ := r
      obtain ⟨-, -, hall⟩ := h
      have hdeps := array_encode deps fun d hd => ih (hall d hd)
      have hhints := array_encode (w := fun h : Bytes 32 => bytes h.val)
        (f := fun h => .bytes h.val) hints fun _ _ => rfl
      rw [Reference.encode, encodeArray_encodeAll, ← hdeps, ← hhints,
        referenceValue, valuesOf_eq]
      rfl

theorem referenceValue_all {depth : Nat} {r : Reference}
    (h : ReferenceFits depth r) : (referenceValue r).All Skippable := by
  induction depth generalizing r with
  | zero => exact h.elim
  | succ depth ih =>
      obtain ⟨hash, size, mime, hints, deps⟩ := r
      obtain ⟨hhints, hdeps, hall⟩ := h
      have hcount : 5 ≤ maxCborEntries := by decide
      have hfields : (Value.array (deps.map referenceValue)).All Skippable
          ∧ (Value.array (hints.map fun h => .bytes h.val)).All Skippable := by
        rw [Value.All, Value.All, Value.allItems_iff, Value.allItems_iff,
          List.forall_mem_map, List.forall_mem_map]
        refine ⟨⟨?_, fun d hd => ih (hall d hd)⟩, ?_, fun _ _ => trivial⟩
        · exact (List.length_map _).trans_le hdeps
        · exact (List.length_map _).trans_le hhints
      rw [referenceValue, valuesOf_eq]
      exact ⟨hcount, ⟨trivial, hfields.1⟩, ⟨trivial, trivial⟩,
        ⟨trivial, trivial⟩, ⟨trivial, trivial⟩, ⟨trivial, hfields.2⟩, trivial⟩

theorem depthItems_hints (hints : List (Bytes 32)) :
    Value.depthItems (hints.map fun h => .bytes h.val)
      = if hints.isEmpty then 0 else 1 := by
  induction hints with
  | nil => rfl
  | cons h hints ih =>
      rw [List.map_cons, Value.depthItems, ih]
      cases hints <;> rfl

/-- What the skipper needs for a reference is its span. -/
theorem referenceValue_depth {depth : Nat} {r : Reference}
    (h : ReferenceFits depth r) : (referenceValue r).depth = span r := by
  induction depth generalizing r with
  | zero => exact h.elim
  | succ depth ih =>
      obtain ⟨hash, size, mime, hints, deps⟩ := r
      obtain ⟨-, -, hall⟩ := h
      have hdeps : Value.depthItems (deps.map referenceValue)
          = span.spanAll deps := by
        clear hints
        induction deps with
        | nil => rfl
        | cons d deps ih' =>
            rw [List.map_cons, Value.depthItems, span.spanAll,
              ih (hall d List.mem_cons_self),
              ih' fun d hd => hall d (List.mem_cons_of_mem _ hd)]
      rw [referenceValue, valuesOf_eq, span, Value.depth]
      simp only [Value.depthEntries, Value.depth, hdeps, depthItems_hints]
      split <;> omega

-- =============================================================== messages

/-- A reference is passed over iff the budget covers its span. -/
theorem readsIff_readBody {depth : Nat} {r : Reference}
    (h : ReferenceFits depth r) :
    ReadsIff (span r ≤ maxCborSkipDepth) DirectMessagePayload.readBody
      r.encode (.referenceBytes r.encode) := by
  have hskip : ReadsIff (span r ≤ maxCborSkipDepth)
      DirectMessagePayload.skipValue r.encode () := by
    rw [← referenceValue_encode h]
    refine (readsIff_skipValueInner _ _).congr ?_
    rw [referenceValue_depth h]
    exact and_iff_right (referenceValue_all h)
  obtain ⟨ib, tl, hform, hmajor⟩ := encode_major (referenceValue r)
  rw [referenceValue_encode h] at hform
  have hfive : ib >>> 5 = 5 := by
    rw [hmajor]
    cases r
    rfl
  have hbody : ReadsIff (span r ≤ maxCborSkipDepth ∧ True) (do
      let start ← position
      DirectMessagePayload.skipValue
      return DirectBody.referenceBytes (← slice start (← position)))
      (r.encode ++ []) (.referenceBytes r.encode) :=
    hskip.marked (Reads.pure _).iff
  rw [List.append_nil, and_true] at hbody
  unfold DirectMessagePayload.readBody
  rw [hform] at hbody ⊢
  refine .peek (.neg ?_ (.pos hfive hbody))
  rw [hfive]
  decide

theorem endsIff_directMessage {depth : Nat} {r : Reference}
    (h : ReferenceFits depth r) {p : DirectMessagePayload}
    (hbody : p.body = .referenceBytes r.encode)
    (hkind : DirectKind.parse p.kind.asStr = p.kind) :
    EndsIff (span r ≤ maxCborSkipDepth) DirectMessagePayload.readFields
      p.encode p := by
  have hcount : 4 ≤ maxCborEntries := by decide
  obtain ⟨kind, body, replyTo, thread⟩ := p
  obtain rfl : body = _ := hbody
  replace hkind : DirectKind.parse kind.asStr = kind := hkind
  refine EndsIff.congr ?_ (and_iff_left trivial)
  refine .map hcount ?_ rfl
  refine .fieldIff (readsIff_readBody h) ?_
  refine .field (reads_readText kind.asStr) ?_
  refine .field (reads_readOptional32 _ thread) ?_
  refine .field (reads_readOptional32 _ replyTo) ?_
  show EndsIff True (do
    if !(← atEnd) then
      throw (.cborDecode "trailing bytes after DirectMessage")
    return (⟨DirectKind.parse kind.asStr, .referenceBytes r.encode, replyTo,
      thread⟩ : DirectMessagePayload)) [] _
  rw [hkind]
  exact .atEnd

/-- A reference that was accepted is accepted again from its encoding, and a
message that carries it is accepted iff the skipper's budget covers its
span. -/
theorem direct_reference {b : List UInt8} {r : Reference}
    (hlen : b.length < 2 ^ 64) (h : Reference.decode b = .ok r) :
    Reference.decode r.encode = .ok r
      ∧ ∀ kind replyTo thread, DirectKind.parse kind.asStr = kind →
        let p : DirectMessagePayload :=
          ⟨kind, .referenceBytes r.encode, replyTo, thread⟩
        p.encode.length < 2 ^ 64 →
        (DirectMessagePayload.decode p.encode = .ok p
          ↔ span r ≤ maxCborSkipDepth) := by
  have hfits := (returns_reference _).of_value h
  constructor
  · obtain ⟨rest, rfl, -⟩ := (spells_reference _).of_value h
    rw [List.length_append] at hlen
    exact (reads_referenceInner hfits).value (by omega)
  · intro kind replyTo thread hkind p hp
    obtain ⟨hreads, hfails⟩ :=
      (endsIff_directMessage hfits (p := p) rfl hkind).value hp
    refine ⟨fun hok => ?_, hreads⟩
    by_contra hnot
    obtain ⟨e, he⟩ := hfails hnot
    cases he.symm.trans hok

/-- A reference with this many levels of dependencies. -/
def nest : Nat → Reference
  | 0 => .mk (Bytes.fill _ 0) 0 "" [] []
  | n + 1 => .mk (Bytes.fill _ 0) 0 "" [] [nest n]

theorem fits_nest {n depth : Nat} (h : n < depth) :
    ReferenceFits depth (nest n) := by
  induction n generalizing depth with
  | zero =>
      obtain ⟨depth, rfl⟩ := Nat.exists_eq_succ_of_ne_zero h.ne'
      exact ⟨by decide, by decide, nofun⟩
  | succ n ih =>
      obtain ⟨depth, rfl⟩ := Nat.exists_eq_succ_of_ne_zero (Nat.ne_zero_of_lt h)
      refine ⟨by decide, show 1 ≤ maxCborEntries by decide, fun d hd => ?_⟩
      obtain rfl := List.mem_singleton.mp hd
      exact ih (Nat.lt_of_succ_lt_succ h)

theorem decode_nest {n : Nat} (h : n ≤ defaultDepDepthLimit)
    (hlen : (nest n).encode.length < 2 ^ 64) :
    Reference.decode (nest n).encode = .ok (nest n) :=
  (reads_referenceInner (fits_nest (Nat.lt_succ_of_le h))).value hlen

/-- One level of dependencies is passed over. -/
theorem direct_reference_nested :
    let p : DirectMessagePayload :=
      ⟨.image, .referenceBytes (nest 1).encode, none, none⟩
    DirectMessagePayload.decode p.encode = .ok p := by
  have haccepted := decode_nest (n := 1) (by decide) (by decide +kernel)
  exact ((direct_reference (by decide +kernel) haccepted).2 .image none none
    (by decide) (by decide +kernel)).mpr (by decide)

/-- Sixteen levels are not, though a reference may have sixty-four. -/
theorem direct_reference_deep :
    let p : DirectMessagePayload :=
      ⟨.image, .referenceBytes (nest 16).encode, none, none⟩
    Reference.decode (nest 16).encode = .ok (nest 16)
      ∧ DirectMessagePayload.decode p.encode = .error (.cborDecode
        "skip_value depth budget exhausted (deeply nested CBOR)") := by
  exact ⟨decode_nest (by decide) (by decide +kernel), by decide +kernel⟩

end Sidevers.Proofs
