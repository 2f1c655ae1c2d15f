import TmmsServer.Rtmp.HandShakePackets

/-!
# The digest inside a handshake packet

The digest of a first packet stands inside the bytes it signs. A packet is cut
into the bytes in front of the digest, the digest, and the bytes behind it; what
is signed are the first and the last.
-/
namespace TmmsServer
open BytesReader

/-- The 1536 bytes of C1 or S1, cut around the 32 bytes of a digest. -/
structure SealedPacket where
  front : List UInt8
  digest : List UInt8
  back : List UInt8
  front_pos : 0 < front.length
  digest_length : digest.length = 32
  total : front.length + 32 + back.length = 1536

namespace SealedPacket

def bytes (s : SealedPacket) : List UInt8 := s.front ++ (s.digest ++ s.back)

/-- All bytes but those of the digest. -/
def rest (s : SealedPacket) : List UInt8 := s.front ++ s.back

def offset (s : SealedPacket) : Nat := s.front.length

theorem bytes_length (s : SealedPacket) : s.bytes.length = 1536 := by
  have htotal := s.total
  simp only [bytes, List.length_append, s.digest_length]
  omega

theorem rest_length (s : SealedPacket) : s.rest.length = 1504 := by
  have htotal := s.total
  simp only [rest, List.length_append]
  omega

theorem offset_le (s : SealedPacket) : s.offset + 32 ≤ 1536 := by
  have htotal := s.total
  unfold offset
  omega

/-- A packet cut at an offset inside it. -/
def cut (packet : List UInt8) (off : Nat) (hpos : 0 < off) (hoff : off + 32 ≤ 1536)
    (hlen : packet.length = 1536) : SealedPacket where
  front := packet.take off
  digest := (packet.drop off).take 32
  back := packet.drop (off + 32)
  front_pos := by rw [List.length_take]; omega
  digest_length := by rw [List.length_take, List.length_drop]; omega
  total := by rw [List.length_take, List.length_drop]; omega

section Cut
variable {packet : List UInt8} {off : Nat} (hpos : 0 < off) (hoff : off + 32 ≤ 1536) (hlen : packet.length = 1536)

theorem cut_bytes : (cut packet off hpos hoff hlen).bytes = packet := by
  simp only [bytes, cut]
  rw [← List.drop_drop, List.take_append_drop, List.take_append_drop]

theorem cut_offset : (cut packet off hpos hoff hlen).offset = off := by
  simp only [offset, cut, List.length_take]
  omega

end Cut

/-- The packet with another digest. -/
def withDigest (s : SealedPacket) (digest : List UInt8) (h : digest.length = 32) : SealedPacket :=
  { s with digest, digest_length := h }

/-- The digest signs the rest of the packet under the key. -/
def Signed (hm : HmacSha256) (key : List UInt8) (s : SealedPacket) : Prop :=
  s.digest = hm.digest key s.rest

/-- The packet signed under a key. -/
def sign (hm : HmacSha256) (key : List UInt8) (s : SealedPacket) : SealedPacket :=
  s.withDigest (hm.digest key s.rest) (hm.length_eq _ _)

theorem sign_signed (hm : HmacSha256) (key : List UInt8) (s : SealedPacket) :
    (s.sign hm key).Signed hm key := rfl

theorem calculateDigest_bytes (hm : HmacSha256) (key : List UInt8) (s : SealedPacket) :
    calculateDigest hm s.bytes 1536 s.offset key = .ok (hm.digest key s.rest) := by
  have hpos : s.offset ≠ 0 := s.front_pos.ne'
  have htotal := s.total
  have hleft : readBytes s.bytes 0 s.offset = .ok s.front := readBytes_at (a := []) rfl rfl
  have hright : readBytes s.bytes (s.offset + 32) (1536 - s.offset - 32) = .ok s.back := by
    have hfront : (s.front ++ s.digest).length = s.offset + 32 := by
      rw [List.length_append, s.digest_length, offset]
    have hback : s.back.length = 1536 - s.offset - 32 := by
      unfold offset
      omega
    simpa [bytes] using readBytes_at (c := []) hfront hback
  unfold calculateDigest
  rw [if_neg hpos, hleft, hright]
  rfl

theorem verifyDigest_bytes (hm : HmacSha256) (key : List UInt8) (s : SealedPacket) :
    verifyDigest hm s.bytes s.offset key = .ok (s.digest == hm.digest key s.rest) := by
  have hsent : readBytes s.bytes s.offset 32 = .ok s.digest := readBytes_at rfl s.digest_length
  unfold verifyDigest
  rw [calculateDigest_bytes, ok_bind, hsent]
  rfl

end SealedPacket

/-- The part of its own key a role signs its first packet with. -/
def partialKey (client : Bool) : List UInt8 :=
  bif client then rtmpPlayerKey.take playerKeyOpenPartLen else rtmpServerKey.take serverKeyOpenPartLen

def wholeKey (client : Bool) : List UInt8 := bif client then rtmpPlayerKey else rtmpServerKey

def roleVersion (client : Bool) : List UInt8 := bif client then rtmpClientVer else rtmpServerVer

/-- C1 or S1 of the complex handshake before its digest is put in. -/
def unsignedPacket (client : Bool) (nonce : Nonce) : List UInt8 :=
  [0, 0, 0, 0] ++ (roleVersion client ++ ((List.range (kRtmpHandShakePacketSize + 1)).map nonce.random).drop 9)

/-- Where the four bytes behind the version put the digest. -/
def placedOffset (client : Bool) (nonce : Nonce) : Nat :=
  ((((unsignedPacket client nonce).drop 8).take 4).map UInt8.toNat).sum % 728 + 12

section Create
variable (client : Bool) (nonce : Nonce)

theorem unsignedPacket_length : (unsignedPacket client nonce).length = 1536 := by
  unfold unsignedPacket
  simp only [List.length_append, List.length_drop, List.length_map, List.length_range]
  cases client <;> rfl

theorem placedOffset_pos : 0 < placedOffset client nonce := Nat.succ_pos _

theorem placedOffset_le : placedOffset client nonce ≤ 739 := by
  have hlt := Nat.mod_lt ((((unsignedPacket client nonce).drop 8).take 4).map UInt8.toNat).sum (by decide : 0 < 728)
  unfold placedOffset
  omega

theorem le_placedOffset : 12 ≤ placedOffset client nonce := Nat.le_add_left _ _

/-- The unsigned packet cut where its digest goes. -/
def unsignedCut : SealedPacket :=
  .cut (unsignedPacket client nonce) (placedOffset client nonce) (placedOffset_pos client nonce)
    (Nat.le_trans (Nat.add_le_add_right (placedOffset_le client nonce) 32) (by decide))
    (unsignedPacket_length client nonce)

/-- C1 or S1 as a role makes it. -/
def signedPacket (hm : HmacSha256) : SealedPacket :=
  (unsignedCut client nonce).sign hm (partialKey client)

theorem unsignedCut_bytes : (unsignedCut client nonce).bytes = unsignedPacket client nonce := by
  unfold unsignedCut
  rw [SealedPacket.cut_bytes]

theorem unsignedCut_offset : (unsignedCut client nonce).offset = placedOffset client nonce := by
  unfold unsignedCut
  rw [SealedPacket.cut_offset]

theorem signedPacket_offset (hm : HmacSha256) :
    (signedPacket client nonce hm).offset = placedOffset client nonce :=
  unsignedCut_offset client nonce

end Create

theorem getDigestOffset_eq {buf : List UInt8} {off m : Nat} (h : off + 4 ≤ buf.length) :
    getDigestOffset buf off m = .ok ((((buf.drop off).take 4).map UInt8.toNat).sum % m + (off + 4)) := by
  unfold getDigestOffset
  rw [readBytes_of_le h]
  rfl

theorem exists_cut {l : List UInt8} (n m : Nat) (h : l.length = n + m) :
    ∃ a b, l = a ++ b ∧ a.length = n ∧ b.length = m := by
  refine ⟨l.take n, l.drop n, (List.take_append_drop n l).symm, ?_, ?_⟩
  · rw [List.length_take]
    omega
  · rw [List.length_drop]
    omega

/-- A role in complex mode makes the unsigned packet of its random bytes and signs it. -/
theorem createC1S1_signed (hm : HmacSha256) (hs : RtmpHandShake) (nonce : Nonce)
    (h : hs.isComplexHandshake = true) :
    hs.createC1S1 hm nonce = .ok { hs with c1s1 := 3 :: (signedPacket hs.isClient nonce hm).bytes } := by
  have hrandom : ((List.range (kRtmpHandShakePacketSize + 1)).map nonce.random).length =
      1 + 1536 := by
    rw [List.length_map, List.length_range]
    rfl
  -- C0, the time, the version, and the rest
  obtain ⟨x, xs, hc, hx, hxs⟩ := exists_cut 1 1536 hrandom
  obtain ⟨y, ys, rfl, hy, hys⟩ := exists_cut 4 1532 hxs
  obtain ⟨z, t, rfl, hz, ht⟩ := exists_cut 4 1528 hys
  have hver : (roleVersion hs.isClient).length = 4 := by cases hs.isClient <;> rfl
  have hunsigned : unsignedPacket hs.isClient nonce =
      [0, 0, 0, 0] ++ (roleVersion hs.isClient ++ t) := by
    have hfront : (x ++ (y ++ z)).length = 9 := by simp only [List.length_append, hx, hy, hz]
    have hassoc : x ++ (y ++ (z ++ t)) = (x ++ (y ++ z)) ++ t := by simp only [List.append_assoc]
    unfold unsignedPacket
    rw [hc, hassoc, List.drop_left' hfront]
  have hfirst : writeBytes (x ++ (y ++ (z ++ t))) 0 [3] = .ok ([3] ++ (y ++ (z ++ t))) :=
    writeBytes_at (a := []) rfl hx
  have htime : writeBytes ([3] ++ (y ++ (z ++ t))) 1 [0, 0, 0, 0] =
      .ok ([3] ++ ([0, 0, 0, 0] ++ (z ++ t))) :=
    writeBytes_at rfl hy
  have hversion : writeBytes ([3] ++ ([0, 0, 0, 0] ++ (z ++ t))) 5 (roleVersion hs.isClient) =
      .ok (3 :: unsignedPacket hs.isClient nonce) := by
    rw [hunsigned]
    exact writeBytes_at (a := [3] ++ [0, 0, 0, 0]) rfl (hz.trans hver.symm)
  have hoff : getDigestOffset (([3] ++ ([0, 0, 0, 0] ++ (z ++ t))).drop 1) 8 728 =
      .ok (placedOffset hs.isClient nonce) := by
    have hz' : (([0, 0, 0, 0] : List UInt8) ++ z).length = 8 := by rw [List.length_append, hz]; rfl
    have hv' : ([0, 0, 0, 0] ++ roleVersion hs.isClient).length =
        8 := by rw [List.length_append, hver]; rfl
    have hbehind : ((unsignedPacket hs.isClient nonce).drop 8) = t := by
      rw [hunsigned, ← List.append_assoc, List.drop_left' hv']
    have hsame : ([3] ++ ([0, 0, 0, 0] ++ (z ++ t))).drop 1 = ([0, 0, 0, 0] ++ z) ++ t := rfl
    unfold placedOffset
    rw [hsame, getDigestOffset_eq (by rw [List.length_append, hz', ht]; decide),
      List.drop_left' hz', hbehind]
  have hdigest := SealedPacket.calculateDigest_bytes hm (partialKey hs.isClient) (unsignedCut hs.isClient nonce)
  rw [unsignedCut_bytes, unsignedCut_offset] at hdigest
  have hsigned : writeBytes (3 :: unsignedPacket hs.isClient nonce) (1 + placedOffset hs.isClient nonce)
      (hm.digest (partialKey hs.isClient) (unsignedCut hs.isClient nonce).rest) =
      .ok (3 :: (signedPacket hs.isClient nonce hm).bytes) := by
    rw [← unsignedCut_bytes, ← unsignedCut_offset]
    refine writeBytes_at (a := 3 :: (unsignedCut hs.isClient nonce).front) ?_ ?_
    · rw [List.length_cons, Nat.add_comm]
      rfl
    · rw [SealedPacket.digest_length, hm.length_eq]
  unfold RtmpHandShake.createC1S1
  dsimp only
  unfold roleVersion at hversion
  unfold partialKey at hdigest hsigned
  rw [hc, hfirst, ok_bind, htime, ok_bind, if_pos h, hoff, ok_bind, hversion, ok_bind,
    List.drop_succ_cons, List.drop_zero, kRtmpHandShakePacketSize, hdigest, ok_bind, hsigned]
  rfl

section Check
variable (hm : HmacSha256) (client : Bool) (nonce : Nonce)

theorem signedPacket_take {n : Nat} (hn : n ≤ 12) :
    (signedPacket client nonce hm).bytes.take n = (unsignedPacket client nonce).take n := by
  have hfront : n ≤ (unsignedCut client nonce).front.length :=
    Nat.le_trans hn (Nat.le_trans (le_placedOffset client nonce) (unsignedCut_offset client nonce).ge)
  rw [← unsignedCut_bytes]
  exact (List.take_append_of_le_length hfront).trans (List.take_append_of_le_length hfront).symm

theorem getDigestOffset_signed :
    getDigestOffset (signedPacket client nonce hm).bytes 8 728 = .ok (placedOffset client nonce) := by
  rw [getDigestOffset_eq (by rw [SealedPacket.bytes_length]; decide), List.take_drop,
    signedPacket_take hm client nonce (by decide), ← List.take_drop]
  rfl

theorem copyUint32_signed : copyUint32 (3 :: (signedPacket client nonce hm).bytes) 5 =
    .ok (UInt32.ofNat (Lib.Words.leValue (roleVersion client))) := by
  have hlen : 5 + 4 ≤ (3 :: (signedPacket client nonce hm).bytes).length := by
    rw [List.length_cons, SealedPacket.bytes_length]
    decide
  unfold copyUint32
  rw [readBytes_of_le hlen, map_ok, List.drop_succ_cons, List.take_drop,
    signedPacket_take hm client nonce (by decide)]
  unfold unsignedPacket
  cases client <;> rfl

theorem roleVersion_ne_zero : UInt32.ofNat (Lib.Words.leValue (roleVersion client)) ≠ 0 := by
  cases client <;> decide

theorem checkDigests_signed {key : List UInt8} {s : SealedPacket} (isComplex : Bool)
    (hoff : getDigestOffset s.bytes 8 728 = .ok s.offset) (hsigned : s.Signed hm key) :
    checkDigests hm isComplex s.bytes key = .ok ⟨isComplex, some s.offset⟩ := by
  have hsame : (s.digest == hm.digest key s.rest) = true := beq_iff_eq.mpr hsigned
  unfold checkDigests
  rw [hoff, ok_bind, SealedPacket.verifyDigest_bytes, ok_bind, hsame]
  rfl

/-- The other role finds the digest of a packet made in complex mode where it was put. -/
theorem checkC1S1_signed : checkC1S1 hm (!client) true (3 :: (signedPacket client nonce hm).bytes) =
    .ok ⟨true, some (placedOffset client nonce)⟩ := by
  have hkey : (bif !client then rtmpServerKey.take serverKeyOpenPartLen
      else rtmpPlayerKey.take playerKeyOpenPartLen) = partialKey client := by
    cases client <;> rfl
  have hdigests := checkDigests_signed hm true
    ((getDigestOffset_signed hm client nonce).trans (congrArg Except.ok (signedPacket_offset client nonce hm).symm))
    (SealedPacket.sign_signed hm (partialKey client) (unsignedCut client nonce))
  unfold checkC1S1
  rw [readUint8T_cons, ok_bind, if_neg (by decide), copyUint32_signed, ok_bind,
    if_neg (roleVersion_ne_zero client), if_pos rfl, hkey, List.drop_succ_cons, List.drop_zero]
  rw [← signedPacket_offset client nonce hm]
  exact hdigests

/-- A digest that is found signs the packet under the key. -/
theorem checkDigests_sound {isComplex : Bool} {key d : List UInt8} {c : C1S1Check} {off : Nat}
    (hlen : d.length = 1536) (hcheck : checkDigests hm isComplex d key = .ok c)
    (hfound : c.offset = some off) :
    c.isComplex = isComplex ∧ ∃ s : SealedPacket, s.bytes = d ∧ s.offset = off ∧ s.Signed hm key := by
  have hcut : ∀ m base, 0 < m → m + base + 4 + 32 ≤ 1537 → base + 4 ≤ d.length →
      ∃ s : SealedPacket, s.bytes = d ∧
      getDigestOffset d base m = .ok s.offset := by
    intro m base hm' hle hbase
    have hlt := Nat.mod_lt (((d.drop base).take 4).map UInt8.toNat).sum hm'
    have hoff : (((d.drop base).take 4).map UInt8.toNat).sum % m + (base + 4) + 32 ≤
        1536 := by omega
    refine ⟨.cut d _ (Nat.succ_pos _) hoff hlen, SealedPacket.cut_bytes _ _ _, ?_⟩
    rw [SealedPacket.cut_offset]
    exact getDigestOffset_eq hbase
  obtain ⟨s, rfl, hs⟩ := hcut 728 8 (by decide) (by decide) (by omega)
  obtain ⟨s', hbytes, hs'⟩ := hcut 728 772 (by decide) (by decide) (by omega)
  unfold checkDigests at hcheck
  rw [hs, ok_bind, SealedPacket.verifyDigest_bytes, ok_bind, hs', ok_bind, ← hbytes,
    SealedPacket.verifyDigest_bytes, ok_bind] at hcheck
  by_cases hfirst : s.Signed hm key
  · rw [if_pos (beq_iff_eq.mpr hfirst)] at hcheck
    obtain rfl := Except.ok.inj hcheck
    exact ⟨rfl, s, rfl, Option.some.inj hfound, hfirst⟩
  · rw [if_neg (fun h => hfirst (beq_iff_eq.mp h))] at hcheck
    obtain rfl := Except.ok.inj hcheck
    by_cases hsecond : s'.Signed hm key
    · dsimp only at hfound
      rw [if_pos (beq_iff_eq.mpr hsecond)] at hfound
      exact ⟨rfl, s', hbytes, Option.some.inj hfound, hsecond⟩
    · dsimp only at hfound
      rw [if_neg (fun h => hsecond (beq_iff_eq.mp h))] at hfound
      exact absurd hfound nofun

/-- In complex mode a positive offset is one of a digest that is there. -/
theorem checkC1S1_sound {packet : List UInt8} {c : C1S1Check} {off : Nat}
    (hlen : packet.length = 1537)
    (hcheck : checkC1S1 hm client true packet = .ok c) (hfound : c.offset = some off) (hpos : 0 < off) :
    c.isComplex = true ∧ ∃ s : SealedPacket, s.bytes = packet.drop 1 ∧ s.offset = off ∧
      s.Signed hm (partialKey !client) := by
  have hkey : (bif client then rtmpServerKey.take serverKeyOpenPartLen
      else rtmpPlayerKey.take playerKeyOpenPartLen) = partialKey !client := by
    cases client <;> rfl
  have hdrop : (packet.drop 1).length = 1536 := by rw [List.length_drop, hlen]
  cases packet with
  | nil => exact absurd hlen (by decide)
  | cons b packet =>
      obtain ⟨version, hversion⟩ : ∃ version, copyUint32 (b :: packet) 5 = .ok version := by
        unfold copyUint32
        exact ⟨_, by rw [readBytes_of_le (by rw [hlen]; decide)]; rfl⟩
      unfold checkC1S1 at hcheck
      rw [readUint8T_cons, ok_bind, hversion, ok_bind, if_pos rfl, hkey] at hcheck
      split at hcheck
      · obtain rfl := Except.ok.inj hcheck
        exact absurd hfound nofun
      · split at hcheck
        · obtain rfl := Except.ok.inj hcheck
          exact absurd hpos (Nat.not_lt.mpr (Option.some.inj hfound).ge)
        · exact checkDigests_sound hm hdrop hcheck hfound

end Check

/-- The last 32 bytes of C2 and S2 sign the others under a key made from the digest of the other side. -/
theorem createC2S2_keyed (hm : HmacSha256) (hs : RtmpHandShake) (nonce : Nonce) (s : SealedPacket)
    (h : hs.isComplexHandshake = true) :
    ∃ body, body.length = 1504 ∧ hs.createC2S2 hm nonce s.bytes s.offset =
      .ok { hs with c2s2 := body ++ hm.digest (hm.digest (wholeKey hs.isClient) s.digest) body } := by
  have hrandom : ((List.range kRtmpHandShakePacketSize).map nonce.random).length = 1536 := by
    rw [List.length_map, List.length_range]
    rfl
  have hs8 : ((s.bytes.drop 0).take 8).length = 8 := by
    rw [List.length_take, List.length_drop, s.bytes_length]
    rfl
  obtain ⟨c₁, hc₁, hlen₁⟩ := writeBytes_ok _ 0 ((s.bytes.drop 0).take 8) (by rw [hrandom, hs8]; decide)
  obtain ⟨c₂, hc₂, hlen₂⟩ := writeBytes_ok c₁ 0 (BytesWriter.writeUint32T nonce.now)
    (by rw [hlen₁, hrandom, BytesWriter.writeUint32T, Lib.Words.beBytes_length]; decide)
  have hlen : c₂.length = 1504 + 32 := hlen₂.trans (hlen₁.trans hrandom)
  obtain ⟨body, last, rfl, hbody, hlast⟩ := exists_cut 1504 32 hlen
  have hdigest : calculateDigest hm (s.bytes.drop s.offset) 32 0 (wholeKey hs.isClient) =
      .ok (hm.digest (wholeKey hs.isClient) s.digest) := by
    have hread : readBytes (s.bytes.drop s.offset) 0 32 = .ok s.digest := by
      unfold SealedPacket.bytes SealedPacket.offset
      rw [List.drop_left]
      exact readBytes_at (a := []) rfl s.digest_length
    unfold calculateDigest
    rw [if_pos rfl, hread]
    rfl
  have hsign : ∀ key, calculateDigest hm (body ++ last) 1504 0 key = .ok (hm.digest key body) := by
    intro key
    have hread : readBytes (body ++ last) 0 1504 = .ok body := readBytes_at (a := []) rfl hbody
    unfold calculateDigest
    rw [if_pos rfl, hread]
    rfl
  have hput : ∀ digest : List UInt8, digest.length = 32 →
      writeBytes (body ++ last) 1504 digest = .ok (body ++ digest) := by
    intro digest hlength
    simpa using writeBytes_at (c := []) hbody (hlast.trans hlength.symm)
  refine ⟨body, hbody, ?_⟩
  have hsize : kRtmpHandShakePacketSize - 32 = 1504 := rfl
  unfold wholeKey at hdigest ⊢
  unfold RtmpHandShake.createC2S2
  dsimp only
  rw [readBytes_of_le (by rw [s.bytes_length]; decide), ok_bind, hc₁, ok_bind, hc₂, ok_bind,
    if_pos h, hdigest, ok_bind, hsize, hsign, ok_bind, hput _ (hm.length_eq _ _)]
  rfl

/-- A first packet made in complex mode is taken by the other role, which finds the digest where its
maker put it. A positive offset is one of a digest inside the packet that signs the other 1504 bytes
under the partial key of the other role, and the answer is keyed from this digest. -/
theorem complexHandshake_verifies (hm : HmacSha256) :
    (∀ (hs : RtmpHandShake) (nonce : Nonce), hs.isComplexHandshake = true → ∃ s : SealedPacket,
      s = (unsignedCut hs.isClient nonce).sign hm (partialKey hs.isClient) ∧
      hs.createC1S1 hm nonce = .ok { hs with c1s1 := 3 :: s.bytes } ∧
      checkC1S1 hm (!hs.isClient) true (3 :: s.bytes) = .ok ⟨true, some s.offset⟩) ∧
    ∀ (client : Bool) (packet : List UInt8) (c : C1S1Check) (off : Nat),
      packet.length = kRtmpHandShakePacketSize + 1 →
      checkC1S1 hm client true packet = .ok c → c.offset = some off → 0 < off →
      ∃ s : SealedPacket, s.bytes = packet.drop 1 ∧ s.offset = off ∧
        s.Signed hm (partialKey !client) ∧
        s.rest.length = 1504 ∧ ∀ (hs : RtmpHandShake) (nonce : Nonce), hs.isClient = client →
          hs.isComplexHandshake = c.isComplex → ∃ body : List UInt8, body.length = 1504 ∧
            hs.createC2S2 hm nonce (packet.drop 1) off = .ok
              { hs with c2s2 := body ++ hm.digest (hm.digest (wholeKey client) s.digest) body } := by
  constructor
  · intro hs nonce hcomplex
    refine ⟨_, rfl, createC1S1_signed hm hs nonce hcomplex, ?_⟩
    have hcheck := checkC1S1_signed hm hs.isClient nonce
    rw [← signedPacket_offset hs.isClient nonce hm] at hcheck
    exact hcheck
  · intro client packet c off hlen hcheck hfound hpos
    obtain ⟨hcomplex, s, hbytes, rfl, hsigned⟩ := checkC1S1_sound hm client hlen hcheck hfound hpos
    refine ⟨s, hbytes, rfl, hsigned, s.rest_length, ?_⟩
    intro hs nonce hclient hsame
    rw [← hbytes, ← hclient]
    exact createC2S2_keyed hm hs nonce s (hsame.trans hcomplex)

/-- A client's first packet of zero bytes, and the server that answers it. -/
theorem complexHandshake_verifies_zero :
    let client : RtmpHandShake := { isClient := true }
    let server : RtmpHandShake := { isClient := false }
    ∃ (s t : SealedPacket) (body : List UInt8),
      client.createC1S1 hmacSha256 {} = .ok { client with c1s1 := 3 :: s.bytes } ∧
      checkC1S1 hmacSha256 false true (3 :: s.bytes) = .ok ⟨true, some s.offset⟩ ∧
      t.bytes = s.bytes ∧ t.offset = s.offset ∧ t.Signed hmacSha256 (partialKey true) ∧
      server.createC2S2 hmacSha256 {} s.bytes s.offset = .ok
        { server with c2s2 := body ++ hmacSha256.digest (hmacSha256.digest (wholeKey false) t.digest) body } := by
  intro client server
  obtain ⟨s, -, hcreate, hcheck⟩ := (complexHandshake_verifies hmacSha256).1 client {} rfl
  obtain ⟨t, hbytes, hoff, hsigned, -, hanswer⟩ :=
    (complexHandshake_verifies hmacSha256).2 false (3 :: s.bytes) _ _
    (by rw [List.length_cons, s.bytes_length]; rfl) hcheck rfl s.front_pos
  obtain ⟨body, -, hbody⟩ := hanswer server {} rfl rfl
  exact ⟨s, t, body, hcreate, hcheck, hbytes, hoff, hsigned, hbody⟩

end TmmsServer
