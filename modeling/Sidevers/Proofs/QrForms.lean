/-
A code that parses says what its card said.

Lengths are cast to 16 bits, so a string of 64 KiB and more is written behind
a length that is not its own. No reader is fooled by it: what it would read is
bounded (`readLpString_le`), and what is left over is refused.
-/
import Sidevers.Proofs.Base32
import Sidevers.Proofs.CborWrites

namespace Sidevers.Proofs

open Sidevers.Core

-- ================================================================ strings

theorem u16_round_trip (n : UInt16) :
    u16FromBeBytes (n >>> 8).toUInt8 n.toUInt8 = n := by
  apply UInt16.toNat.inj
  have hn := n.toNat_lt
  have h8 : (8 : UInt16).toNat % 16 = 8 := rfl
  have hlow : n.toNat % 2 ^ 8 < 2 ^ 8 := Nat.mod_lt _ (by decide)
  unfold u16FromBeBytes
  rw [UInt16.toNat_or, UInt16.toNat_shiftLeft, UInt8.toNat_toUInt16,
    UInt8.toNat_toUInt16, UInt16.toNat_toUInt8, UInt16.toNat_toUInt8,
    UInt16.toNat_shiftRight, h8, Nat.shiftRight_eq_div_pow, Nat.shiftLeft_eq]
  have hhigh : n.toNat / 2 ^ 8 % 2 ^ 8 * 2 ^ 8 % 2 ^ 16
      = 2 ^ 8 * (n.toNat / 2 ^ 8) := by omega
  rw [hhigh, ← Nat.two_pow_add_eq_or_of_lt hlow, Nat.div_add_mod]

theorem lpString_cons (t : String) :
    ∃ hi lo, lpString t = hi :: lo :: utf8 t
      ∧ (u16FromBeBytes hi lo).toNat = (utf8 t).length % 2 ^ 16 := by
  refine ⟨_, _, rfl, ?_⟩
  rw [u16_round_trip]
  rfl

theorem length_lpString (t : String) :
    (lpString t).length = 2 + (utf8 t).length := by
  obtain ⟨hi, lo, hform, -⟩ := lpString_cons t
  rw [hform, List.length_cons, List.length_cons]
  omega

theorem fromUTF8_utf8 (t : String) :
    String.fromUTF8? ⟨(utf8 t).toArray⟩ = some t := fromUTF8_toUTF8 t

theorem utf8_eq_nil {t : String} : (utf8 t).length = 0 ↔ t = "" := by
  refine ⟨fun h => ?_, fun h => by rw [h]; rfl⟩
  have hform := fromUTF8_utf8 t
  have hempty := fromUTF8_utf8 ""
  have hnil : utf8 "" = [] := rfl
  rw [List.eq_nil_of_length_eq_zero h] at hform
  rw [hnil, hform] at hempty
  exact Option.some.inj hempty

theorem utf8_pos {t : String} : 1 ≤ (utf8 t).length ↔ t ≠ "" :=
  Nat.one_le_iff_ne_zero.trans (not_congr utf8_eq_nil)

/-- A string shorter than 64 KiB is read for what it is. -/
theorem readLpString_of_drop {bytes rest : List UInt8} {pos : Nat}
    {t : String} (hdrop : bytes.drop pos = lpString t ++ rest)
    (hshort : (utf8 t).length < 2 ^ 16) (maxLen : Nat) (field : String) :
    readLpString bytes pos maxLen field
      = if (utf8 t).length > maxLen then
          .error (.cborDecode s!"{field}: oversized")
        else .ok (t, pos + 2 + (utf8 t).length) := by
  obtain ⟨hi, lo, hform, hlen⟩ := lpString_cons t
  rw [Nat.mod_eq_of_lt hshort] at hlen
  unfold readLpString
  rw [hdrop, hform, List.cons_append, List.cons_append]
  show (if (u16FromBeBytes hi lo).toNat > (utf8 t ++ rest).length then _
    else _) = _
  have hfits : ¬ (utf8 t).length > (utf8 t ++ rest).length := by
    rw [List.length_append]
    omega
  rw [hlen, if_neg hfits]
  show (if (utf8 t).length > maxLen then _ else _) = _
  by_cases hover : (utf8 t).length > maxLen
  · rw [if_pos hover, if_pos hover]
    rfl
  · rw [if_neg hover, if_neg hover]
    dsimp only
    rw [List.take_left, fromUTF8_utf8]
    rfl

theorem readLpString_fits {bytes rest : List UInt8} {pos maxLen : Nat}
    {t : String} (hdrop : bytes.drop pos = lpString t ++ rest)
    (hmax : maxLen < 2 ^ 16) (hfits : (utf8 t).length ≤ maxLen)
    (field : String) :
    readLpString bytes pos maxLen field
      = .ok (t, pos + 2 + (utf8 t).length) := by
  rw [readLpString_of_drop hdrop (by omega), if_neg (by omega)]

theorem readLpString_exact {bytes rest : List UInt8}
    {pos maxLen pos' : Nat} {field t t' : String}
    (hdrop : bytes.drop pos = lpString t ++ rest)
    (hshort : (utf8 t).length < 2 ^ 16)
    (h : readLpString bytes pos maxLen field = .ok (t', pos')) :
    (utf8 t).length ≤ maxLen ∧ t' = t
      ∧ pos' = pos + 2 + (utf8 t).length := by
  rw [readLpString_of_drop hdrop hshort] at h
  split at h
  case isTrue => cases h
  case isFalse hfits =>
    cases h
    exact ⟨Nat.le_of_not_gt hfits, rfl, rfl⟩

theorem drop_lpString {bytes rest : List UInt8} {pos : Nat} {t : String}
    (hdrop : bytes.drop pos = lpString t ++ rest) :
    bytes.drop (pos + 2 + (utf8 t).length) = rest := by
  rw [Nat.add_assoc, ← length_lpString, ← List.drop_drop, hdrop,
    List.drop_left]

/-- What is read is within the limit. -/
theorem readLpString_le {bytes : List UInt8} {pos maxLen pos' : Nat}
    {field t : String}
    (h : readLpString bytes pos maxLen field = .ok (t, pos')) :
    pos' ≤ pos + 2 + maxLen := by
  unfold readLpString at h
  split at h
  case h_1 hi lo rest _ =>
    obtain ⟨-, h⟩ := guard_ok.mp h
    obtain ⟨hlen, h⟩ := guard_ok.mp h
    split at h
    case h_1 =>
      cases h
      omega
    case h_2 => cases h
  case h_2 => cases h

-- =============================================================== the codes

theorem copySlice_val {n : Nat} (b : Bytes n) (rest : List UInt8) :
    copySlice n ((b.val ++ rest).take n) = b := by
  have htake : (b.val ++ rest).take n = b.val := List.take_left' b.property
  unfold copySlice
  rw [htake, dif_pos b.property]

theorem drop_val {n : Nat} (b : Bytes n) (rest : List UInt8) :
    (b.val ++ rest).drop n = rest := List.drop_left' b.property

theorem stripPrefix_append (scheme t : String) :
    stripPrefix scheme (scheme ++ t) = some t := by
  unfold stripPrefix
  rw [String.toList_append, if_pos (List.prefix_append _ _), List.drop_left,
    String.ofList_toList]

theorem qrBytes_encode (scheme what : String) (version : UInt8)
    (rest : List UInt8) :
    qrBytes scheme what version (scheme ++ base32Encode (version :: rest))
      = .ok (version :: rest) := by
  unfold qrBytes
  rw [stripPrefix_append]
  dsimp only
  rw [base32Decode_encode]
  show (if ¬ some version = some version then _ else _) = _
  rw [if_neg (not_not.mpr rfl)]
  rfl

theorem nonEmpty_orEmpty (t : Option String) :
    nonEmpty (orEmpty t) = t.filter (· ≠ "") := by
  cases t with
  | none => rfl
  | some t =>
      unfold nonEmpty orEmpty
      rw [Option.getD_some]
      by_cases ht : t = ""
      · rw [if_pos ht, ht]
        rfl
      · rw [if_neg ht, Option.filter_some, if_pos (decide_eq_true ht)]

-- ========================================================== contact cards

/-- What a card says: an empty string is an absent one. -/
def contactSaid (card : ContactCard) : ContactCard :=
  { card with
    displayName := card.displayName.filter (· ≠ "")
    sideLabel := card.sideLabel.filter (· ≠ "") }

/-- The limits on a contact card. -/
structure ContactFits (card : ContactCard) : Prop where
  displayName : (utf8 (orEmpty card.displayName)).length ≤ 512
  sideLabel : (utf8 (orEmpty card.sideLabel)).length ≤ 64
  dialAddr_pos : 1 ≤ (utf8 card.dialAddr).length
  dialAddr_le : (utf8 card.dialAddr).length ≤ 256

theorem length_contact (card : ContactCard) :
    card.layout.length = 39 + (utf8 (orEmpty card.displayName)).length
      + (utf8 (orEmpty card.sideLabel)).length
      + (utf8 card.dialAddr).length := by
  unfold ContactCard.layout
  rw [List.length_cons, List.length_append, List.length_append,
    List.length_append, length_lpString, length_lpString, length_lpString,
    card.side.property]
  omega

/-- What a card is parsed from. -/
theorem contact_parts {bytes : List UInt8} {card : ContactCard} :
    ContactCard.parseLayout bytes = .ok card
    ↔ ¬ bytes.length < 39 ∧ ∃ displayName pos sideLabel pos' dialAddr,
      readLpString bytes 33 512 "contact QR: display_name"
        = .ok (displayName, pos)
      ∧ readLpString bytes pos 64 "contact QR: side_label"
        = .ok (sideLabel, pos')
      ∧ readLpString bytes pos' 256 "contact QR: dial_addr"
        = .ok (dialAddr, bytes.length)
      ∧ dialAddr ≠ ""
      ∧ card = ⟨copySlice 32 ((bytes.drop 1).take 32), dialAddr,
          nonEmpty displayName, nonEmpty sideLabel⟩ := by
  constructor
  · intro h
    obtain ⟨hlong, h⟩ := guard_ok.mp h
    obtain ⟨⟨displayName, pos⟩, hname, h⟩ := ok_of_bind h
    obtain ⟨⟨sideLabel, pos'⟩, hlabel, h⟩ := ok_of_bind h
    obtain ⟨⟨dialAddr, last⟩, haddr, h⟩ := ok_of_bind h
    obtain ⟨hne, h⟩ := guard_ok.mp h
    obtain ⟨hlast, h⟩ := guard_ok.mp h
    rw [not_not.mp hlast] at haddr
    cases h
    exact ⟨hlong, _, _, _, _, _, hname, hlabel, haddr, hne, rfl⟩
  · rintro ⟨hlong, displayName, pos, sideLabel, pos', dialAddr, hname, hlabel,
      haddr, hne, rfl⟩
    refine guard_ok.mpr ⟨hlong, bind_ok hname (bind_ok hlabel
      (bind_ok haddr (guard_ok.mpr ⟨hne, ?_⟩)))⟩
    exact guard_ok.mpr ⟨not_not.mpr rfl, rfl⟩

/-- Where the strings of a card stand. -/
theorem contact_drops (card : ContactCard) :
    card.layout.drop 33 = lpString (orEmpty card.displayName)
      ++ (lpString (orEmpty card.sideLabel)
        ++ (lpString card.dialAddr ++ [])) := by
  rw [List.append_nil]
  exact drop_val card.side _

theorem contact_parse (card card' : ContactCard) :
    ContactCard.parse card.encode = .ok card'
      ↔ ContactFits card ∧ card' = contactSaid card := by
  have hbytes : ContactCard.parse card.encode
      = ContactCard.parseLayout card.layout := by
    unfold ContactCard.parse ContactCard.encode ContactCard.layout
    rw [qrBytes_encode]
    rfl
  have hlength := length_contact card
  have hname := contact_drops card
  have hlabel := drop_lpString hname
  have haddr := drop_lpString hlabel
  have hside : copySlice 32 ((card.layout.drop 1).take 32) = card.side :=
    copySlice_val card.side _
  rw [hbytes]
  constructor
  · intro h
    obtain ⟨-, displayName, pos, sideLabel, pos', dialAddr, hreadName,
      hreadLabel, hreadAddr, hne, hcard⟩ := contact_parts.mp h
    have hname_le := readLpString_le hreadName
    have hlabel_le := readLpString_le hreadLabel
    have haddr_le := readLpString_le hreadAddr
    obtain ⟨hfitsName, rfl, rfl⟩ :=
      readLpString_exact hname (by omega) hreadName
    obtain ⟨hfitsLabel, rfl, rfl⟩ :=
      readLpString_exact hlabel (by omega) hreadLabel
    obtain ⟨hfitsAddr, rfl, -⟩ :=
      readLpString_exact haddr (by omega) hreadAddr
    refine ⟨⟨hfitsName, hfitsLabel, ?_, hfitsAddr⟩, ?_⟩
    · exact utf8_pos.mpr hne
    · rw [hcard, hside, nonEmpty_orEmpty, nonEmpty_orEmpty]
      rfl
  · rintro ⟨hfits, rfl⟩
    have hlast : card.layout.length = 33 + 2
        + (utf8 (orEmpty card.displayName)).length + 2
        + (utf8 (orEmpty card.sideLabel)).length + 2
        + (utf8 card.dialAddr).length := by omega
    refine contact_parts.mpr ⟨by omega, _, _, _, _, card.dialAddr,
      readLpString_fits hname (by decide) hfits.displayName _,
      readLpString_fits hlabel (by decide) hfits.sideLabel _, ?_,
      utf8_pos.mp hfits.dialAddr_pos, ?_⟩
    · rw [hlast]
      exact readLpString_fits haddr (by decide) hfits.dialAddr_le _
    · rw [hside, nonEmpty_orEmpty, nonEmpty_orEmpty]
      rfl

-- ========================================================== group invites

/-- What an invite says: an empty name is an absent one. -/
def inviteSaid (invite : GroupInvite) : GroupInvite :=
  { invite with name := invite.name.filter (· ≠ "") }

/-- The limits on a group invite. -/
structure InviteFits (invite : GroupInvite) : Prop where
  dialAddr_pos : 1 ≤ (utf8 invite.dialAddr).length
  dialAddr_le : (utf8 invite.dialAddr).length ≤ 256
  name : (utf8 (orEmpty invite.name)).length ≤ 256

theorem length_photo_pos (photo : Option (Bytes 32)) :
    1 ≤ (GroupInvite.photo photo).length := by
  cases photo with
  | none => exact Nat.le_refl 1
  | some h => exact Nat.le_add_left 1 _

theorem length_invite (invite : GroupInvite) :
    invite.layout.length = 69 + (utf8 invite.dialAddr).length
      + (utf8 (orEmpty invite.name)).length
      + (GroupInvite.photo invite.photoHash).length := by
  unfold GroupInvite.layout
  rw [List.length_cons, List.length_append, List.length_append,
    List.length_append, List.length_append, length_lpString, length_lpString,
    invite.verse.property, invite.contractHash.property]
  omega

/-- A photo is read for what it is. -/
theorem readPhoto_of_drop {bytes : List UInt8} {pos : Nat}
    {photo : Option (Bytes 32)}
    (hdrop : bytes.drop pos = GroupInvite.photo photo) :
    GroupInvite.readPhoto bytes pos = .ok (photo, bytes.length) := by
  have hlength := congrArg List.length hdrop
  rw [List.length_drop] at hlength
  have hpos := length_photo_pos photo
  have hflag : bytes[pos]? = (GroupInvite.photo photo)[0]? := by
    rw [← hdrop, List.getElem?_drop, Nat.add_zero]
  unfold GroupInvite.readPhoto
  rw [hflag]
  cases photo with
  | none =>
      show Except.ok (none, pos + 1) = _
      have hone : (GroupInvite.photo none).length = 1 := rfl
      rw [show bytes.length = pos + 1 by omega]
  | some h =>
      have hone : (GroupInvite.photo (some h)).length = 33 :=
        congrArg Nat.succ h.property
      have hrest : (bytes.drop (pos + 1)).take 32 = h.val := by
        rw [← List.drop_drop, hdrop]
        exact List.take_of_length_le (Nat.le_of_eq h.property)
      have hcopy : copySlice 32 h.val = h := dif_pos h.property
      show (if pos + 1 + 32 > bytes.length then _ else _) = _
      rw [if_neg (by omega), hrest, hcopy]
      show Except.ok (some h, pos + 1 + 32) = _
      rw [show bytes.length = pos + 1 + 32 by omega]

theorem readPhoto_le {bytes : List UInt8} {pos pos' : Nat}
    {photo : Option (Bytes 32)}
    (h : GroupInvite.readPhoto bytes pos = .ok (photo, pos')) :
    pos' ≤ pos + 33 := by
  unfold GroupInvite.readPhoto at h
  split at h
  case h_1 => cases h
  case h_2 flag _ =>
    split at h
    case isTrue =>
      cases h
      omega
    case isFalse =>
      split at h
      case isTrue =>
        obtain ⟨-, h⟩ := guard_ok.mp h
        cases h
        omega
      case isFalse => cases h

/-- What an invite is parsed from. -/
theorem invite_parts {bytes : List UInt8} {invite : GroupInvite} :
    GroupInvite.parseLayout bytes = .ok invite
    ↔ ¬ bytes.length < 70 ∧ ∃ dialAddr pos name pos' photo,
      readLpString bytes 65 256 "group QR: dial_addr" = .ok (dialAddr, pos)
      ∧ dialAddr ≠ ""
      ∧ readLpString bytes pos 256 "group QR: name" = .ok (name, pos')
      ∧ GroupInvite.readPhoto bytes pos' = .ok (photo, bytes.length)
      ∧ invite = ⟨copySlice 32 ((bytes.drop 1).take 32),
          copySlice 32 ((bytes.drop 33).take 32), dialAddr, nonEmpty name,
          photo⟩ := by
  constructor
  · intro h
    obtain ⟨hlong, h⟩ := guard_ok.mp h
    obtain ⟨⟨dialAddr, pos⟩, haddr, h⟩ := ok_of_bind h
    obtain ⟨hne, h⟩ := guard_ok.mp h
    obtain ⟨⟨name, pos'⟩, hname, h⟩ := ok_of_bind h
    obtain ⟨⟨photo, last⟩, hphoto, h⟩ := ok_of_bind h
    obtain ⟨hlast, h⟩ := guard_ok.mp h
    rw [not_not.mp hlast] at hphoto
    cases h
    exact ⟨hlong, _, _, _, _, _, haddr, hne, hname, hphoto, rfl⟩
  · rintro ⟨hlong, dialAddr, pos, name, pos', photo, haddr, hne, hname,
      hphoto, rfl⟩
    refine guard_ok.mpr ⟨hlong, bind_ok haddr (guard_ok.mpr ⟨hne,
      bind_ok hname (bind_ok hphoto ?_)⟩)⟩
    exact guard_ok.mpr ⟨not_not.mpr rfl, rfl⟩

theorem invite_parse (invite invite' : GroupInvite) :
    GroupInvite.parse invite.encode = .ok invite'
      ↔ InviteFits invite ∧ invite' = inviteSaid invite := by
  have hbytes : GroupInvite.parse invite.encode
      = GroupInvite.parseLayout invite.layout := by
    unfold GroupInvite.parse GroupInvite.encode GroupInvite.layout
    rw [qrBytes_encode]
    rfl
  have hlength := length_invite invite
  have hphoto_pos := length_photo_pos invite.photoHash
  have hsecond : invite.layout.drop 33 = invite.contractHash.val ++ _ :=
    drop_val invite.verse _
  have haddr : invite.layout.drop 65 = lpString invite.dialAddr
      ++ (lpString (orEmpty invite.name)
        ++ GroupInvite.photo invite.photoHash) := by
    rw [show 65 = 33 + 32 from rfl, ← List.drop_drop, hsecond]
    exact drop_val invite.contractHash _
  have hname := drop_lpString haddr
  have hphoto := drop_lpString hname
  have hverse : copySlice 32 ((invite.layout.drop 1).take 32)
      = invite.verse := copySlice_val invite.verse _
  have hcontract : copySlice 32 ((invite.layout.drop 33).take 32)
      = invite.contractHash := by
    rw [hsecond]
    exact copySlice_val invite.contractHash _
  rw [hbytes]
  constructor
  · intro h
    obtain ⟨-, dialAddr, pos, name, pos', photo, hreadAddr, hne, hreadName,
      hreadPhoto, hinvite⟩ := invite_parts.mp h
    have haddr_le := readLpString_le hreadAddr
    have hname_le := readLpString_le hreadName
    have hphoto_le := readPhoto_le hreadPhoto
    obtain ⟨hfitsAddr, rfl, rfl⟩ :=
      readLpString_exact haddr (by omega) hreadAddr
    obtain ⟨hfitsName, rfl, rfl⟩ :=
      readLpString_exact hname (by omega) hreadName
    rw [readPhoto_of_drop hphoto] at hreadPhoto
    cases hreadPhoto
    refine ⟨⟨?_, hfitsAddr, hfitsName⟩, ?_⟩
    · exact utf8_pos.mpr hne
    · rw [hinvite, hverse, hcontract, nonEmpty_orEmpty]
      rfl
  · rintro ⟨hfits, rfl⟩
    refine invite_parts.mpr ⟨by omega, _, _, _, _, _,
      readLpString_fits haddr (by decide) hfits.dialAddr_le _,
      utf8_pos.mp hfits.dialAddr_pos,
      readLpString_fits hname (by decide) hfits.name _,
      readPhoto_of_drop hphoto, ?_⟩
    rw [hverse, hcontract, nonEmpty_orEmpty]
    rfl

-- ================================================================ pairing

/-- The lengths of the layout and of the address agree below 64 KiB only. -/
theorem pairing_parse (qr qr' : PairingQr) :
    PairingQr.parse qr.encode = .ok qr'
      ↔ (utf8 qr.dialAddr).length ≤ 65535 ∧ qr' = qr := by
  have hbytes : PairingQr.parse qr.encode
      = PairingQr.parseLayout qr.layout := by
    unfold PairingQr.parse PairingQr.encode PairingQr.layout
    rw [qrBytes_encode]
    rfl
  obtain ⟨hi, lo, hform, hlen⟩ := lpString_cons qr.dialAddr
  have hsecond : qr.layout.drop 33 = qr.nonce.val ++ lpString qr.dialAddr :=
    drop_val qr.side _
  have haddr : qr.layout.drop (33 + pairingNonceLen)
      = hi :: lo :: utf8 qr.dialAddr := by
    rw [← List.drop_drop, hsecond, ← hform]
    exact drop_val qr.nonce _
  have hside : copySlice 32 ((qr.layout.drop 1).take 32) = qr.side :=
    copySlice_val qr.side _
  have hnonce : copySlice pairingNonceLen
      ((qr.layout.drop 33).take pairingNonceLen) = qr.nonce := by
    rw [hsecond]
    exact copySlice_val qr.nonce _
  have hlength : qr.layout.length
      = 33 + pairingNonceLen + 2 + (utf8 qr.dialAddr).length := by
    unfold PairingQr.layout
    rw [List.length_cons, List.length_append, List.length_append,
      length_lpString, qr.side.property, qr.nonce.property]
    omega
  have hhi : qr.layout.getD (33 + pairingNonceLen) 0 = hi := by
    rw [List.getD_eq_getElem?_getD, ← Nat.add_zero (33 + pairingNonceLen),
      ← List.getElem?_drop, haddr]
    rfl
  have hlo : qr.layout.getD (33 + pairingNonceLen + 1) 0 = lo := by
    rw [List.getD_eq_getElem?_getD, ← List.getElem?_drop, haddr]
    rfl
  have hrest : qr.layout.drop (33 + pairingNonceLen + 2)
      = utf8 qr.dialAddr := by
    rw [← List.drop_drop, haddr]
    rfl
  have hparse : PairingQr.parseLayout qr.layout
      = if (utf8 qr.dialAddr).length ≤ 65535 then .ok qr
        else .error (.cborDecode "pairing QR: addr length mismatch") := by
    unfold PairingQr.parseLayout
    rw [if_neg (by omega)]
    show (if qr.layout.length ≠ 33 + pairingNonceLen + 2
        + (u16FromBeBytes (qr.layout.getD (33 + pairingNonceLen) 0)
          (qr.layout.getD (33 + pairingNonceLen + 1) 0)).toNat
      then _ else _) = _
    rw [hhi, hlo, hlen, hlength]
    by_cases hshort : (utf8 qr.dialAddr).length ≤ 65535
    · rw [if_neg (by omega), if_pos hshort]
      rw [hrest, fromUTF8_utf8, hside, hnonce]
      rfl
    · rw [if_pos (by omega), if_neg hshort]
      rfl
  rw [hbytes, hparse]
  split
  case isTrue hshort =>
    exact ⟨fun h => ⟨hshort, (Except.ok.inj h).symm⟩, fun h => by rw [h.2]⟩
  case isFalse hlong =>
    exact iff_of_false (fun h => by cases h) fun h => hlong h.1

-- ============================================================== the result

/-- A code parses exactly when its strings are within the limits, and to what
its card said. -/
theorem qr_forms :
    (∀ card card' : ContactCard, ContactCard.parse card.encode = .ok card'
      ↔ ContactFits card ∧ card' = contactSaid card)
    ∧ (∀ invite invite' : GroupInvite,
      GroupInvite.parse invite.encode = .ok invite'
        ↔ InviteFits invite ∧ invite' = inviteSaid invite)
    ∧ (∀ qr qr' : PairingQr, PairingQr.parse qr.encode = .ok qr'
      ↔ (utf8 qr.dialAddr).length ≤ 65535 ∧ qr' = qr)
    ∧ ∀ input : List UInt8, base32Decode (base32Encode input) = some input :=
  ⟨contact_parse, invite_parse, pairing_parse, base32Decode_encode⟩

end Sidevers.Proofs
