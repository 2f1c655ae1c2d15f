import TmmsServer.Lib.Sha256
import TmmsServer.Rtmp.HandShake

/-!
# The packets of the handshake

The checks of a first packet look at its 1537 bytes and at no others, and every
packet is made without leaving its buffer.
-/
namespace TmmsServer
open BytesReader

section Packets
variable {hm : HmacSha256} {d v : List UInt8}

theorem getDigestOffset_append {off m : Nat} (h : off + 4 ≤ d.length) :
    getDigestOffset (d ++ v) off m = getDigestOffset d off m := by
  unfold getDigestOffset
  rw [readBytes_append v h]

theorem getDigestOffset_ok (d : List UInt8) (off : Nat) {m : Nat} (hm : 0 < m)
    (h : off + 4 ≤ d.length) : ∃ pos, getDigestOffset d off m = .ok pos ∧ pos < m + (off + 4) := by
  refine ⟨_, by unfold getDigestOffset; rw [readBytes_of_le h]; rfl, ?_⟩
  exact Nat.add_lt_add_right (Nat.mod_lt _ hm) _

theorem calculateDigest_append {len gap : Nat} {key : List UInt8} (hgap : gap + 32 ≤ len)
    (h : len ≤ d.length) :
    calculateDigest hm (d ++ v) len gap key = calculateDigest hm d len gap key := by
  unfold calculateDigest
  rw [readBytes_append v (by omega), readBytes_append v (by omega), readBytes_append v (by omega)]

theorem calculateDigest_ok (hm : HmacSha256) (d key : List UInt8) {len gap : Nat}
    (hgap : gap + 32 ≤ len) (h : len ≤ d.length) :
    ∃ digest, calculateDigest hm d len gap key = .ok digest ∧ digest.length = 32 := by
  unfold calculateDigest
  split
  · rw [readBytes_of_le (by omega)]
    exact ⟨_, rfl, hm.length_eq _ _⟩
  · rw [readBytes_of_le (by omega), readBytes_of_le (by omega)]
    exact ⟨_, rfl, hm.length_eq _ _⟩

theorem verifyDigest_append {pos : Nat} {key : List UInt8} (hpos : pos + 32 ≤ 1536)
    (h : 1536 ≤ d.length) : verifyDigest hm (d ++ v) pos key = verifyDigest hm d pos key := by
  unfold verifyDigest
  rw [calculateDigest_append hpos h, readBytes_append v (by omega)]

theorem verifyDigest_ok (hm : HmacSha256) {pos : Nat} (key : List UInt8) (hpos : pos + 32 ≤ 1536)
    (h : 1536 ≤ d.length) : ∃ b, verifyDigest hm d pos key = .ok b := by
  obtain ⟨digest, hdigest, -⟩ := calculateDigest_ok hm d key hpos h
  unfold verifyDigest
  rw [hdigest, ok_bind, readBytes_of_le (by omega)]
  exact ⟨_, rfl⟩

/-- What holds of every check of a packet that is there: the digest it found lies inside. -/
structure C1S1Check.Sound (isComplex : Bool) (c : C1S1Check) : Prop where
  offset_le : ∀ off, c.offset = some off → off + 32 ≤ 1536
  keeps : c.offset = none → c.isComplex = isComplex

theorem checkDigests_reads {isComplex : Bool} {key : List UInt8} (h : 1536 ≤ d.length) :
    checkDigests hm isComplex (d ++ v) key = checkDigests hm isComplex d key ∧
      ∃ c, checkDigests hm isComplex d key = .ok c ∧ c.Sound isComplex := by
  obtain ⟨p, hp, hple⟩ := getDigestOffset_ok d 8 (by decide : 0 < 728) (by omega)
  obtain ⟨q, hq, hqle⟩ := getDigestOffset_ok d 772 (by decide : 0 < 728) (by omega)
  obtain ⟨b, hb⟩ := verifyDigest_ok hm key (by omega : p + 32 ≤ 1536) h
  obtain ⟨b', hb'⟩ := verifyDigest_ok hm key (by omega : q + 32 ≤ 1536) h
  unfold checkDigests
  rw [getDigestOffset_append (by omega), hp, ok_bind, ok_bind, verifyDigest_append (by omega) h, hb,
    ok_bind, ok_bind]
  cases b with
  | true =>
      refine ⟨rfl, _, rfl, ?_, nofun⟩
      rintro off ⟨rfl⟩
      omega
  | false =>
      rw [if_neg Bool.false_ne_true, if_neg Bool.false_ne_true, getDigestOffset_append (by omega),
        hq, ok_bind, ok_bind, verifyDigest_append (by omega) h, hb', ok_bind]
      refine ⟨rfl, _, rfl, ?_, fun _ => rfl⟩
      intro off hoff
      cases b' with
      | false => exact absurd hoff nofun
      | true =>
          obtain rfl := Option.some.inj hoff
          omega

/-- The check looks at the 1537 bytes of the packet and at no others. -/
theorem checkC1S1_reads (hm : HmacSha256) (client isComplex : Bool) (v : List UInt8)
    (h : d.length = 1537) :
    checkC1S1 hm client isComplex (d ++ v) = checkC1S1 hm client isComplex d ∧
      ∃ c, checkC1S1 hm client isComplex d = .ok c ∧ c.Sound isComplex := by
  have hfront : readUint8T (d ++ v) 0 = readUint8T d 0 := by
    unfold readUint8T
    rw [readBytes_append v (by omega)]
  have hversion : copyUint32 (d ++ v) 5 = copyUint32 d 5 := by
    unfold copyUint32
    rw [readBytes_append v (by omega)]
  obtain ⟨c₀, hc₀⟩ : ∃ c, readUint8T d 0 = .ok c :=
    ⟨_, by unfold readUint8T; rw [readBytes_of_le (by omega)]; rfl⟩
  obtain ⟨w, hw⟩ : ∃ w, copyUint32 d 5 = .ok w :=
    ⟨_, by unfold copyUint32; rw [readBytes_of_le (by omega)]; rfl⟩
  have hdrop : (d ++ v).drop 1 = d.drop 1 ++ v := List.drop_append_of_le_length (by omega)
  have hlen : 1536 ≤ (d.drop 1).length := by rw [List.length_drop]; omega
  unfold checkC1S1
  rw [hfront, hversion, hc₀, hw, hdrop]
  simp only [ok_bind]
  split
  · exact ⟨rfl, ⟨isComplex, none⟩, rfl, nofun, fun _ => rfl⟩
  · split
    · refine ⟨rfl, _, rfl, ?_, nofun⟩
      rintro off ⟨rfl⟩
      decide
    · split
      · exact checkDigests_reads hlen
      · refine ⟨rfl, _, rfl, ?_, nofun⟩
        rintro off ⟨rfl⟩
        decide

/-- C1 and S1 are made without leaving the packet. -/
theorem createC1S1_ok (hm : HmacSha256) (hs : RtmpHandShake) (nonce : Nonce) :
    ∃ c1s1, hs.createC1S1 hm nonce = .ok { hs with c1s1 } := by
  have hlen : ((List.range (kRtmpHandShakePacketSize + 1)).map nonce.random).length = 1537 := by
    rw [List.length_map, List.length_range]
    rfl
  obtain ⟨c₁, hc₁, hlen₁⟩ := writeBytes_ok _ 0 [3] (by rw [hlen]; decide)
  obtain ⟨c₂, hc₂, hlen₂⟩ := writeBytes_ok c₁ 1 [0, 0, 0, 0] (by rw [hlen₁, hlen]; decide)
  unfold RtmpHandShake.createC1S1
  simp only [hc₁, hc₂, ok_bind]
  rw [hlen] at hlen₁
  rw [hlen₁] at hlen₂
  split
  · have hdrop : (c₂.drop 1).length = 1536 := by rw [List.length_drop, hlen₂]
    obtain ⟨off, hoff, hle⟩ := getDigestOffset_ok (c₂.drop 1) 8 (by decide : 0 < 728) (by omega)
    obtain ⟨c₃, hc₃, hlen₃⟩ := writeBytes_ok c₂ 5
      (bif hs.isClient then rtmpClientVer else rtmpServerVer)
      (by rw [hlen₂]; cases hs.isClient <;> decide)
    have hdrop₃ : (c₃.drop 1).length = 1536 := by rw [List.length_drop, hlen₃, hlen₂]
    obtain ⟨digest, hdigest, hdlen⟩ := calculateDigest_ok hm (c₃.drop 1)
      (bif hs.isClient then rtmpPlayerKey.take playerKeyOpenPartLen else rtmpServerKey.take serverKeyOpenPartLen)
      (by omega : off + 32 ≤ 1536) (by omega)
    obtain ⟨c₄, hc₄, -⟩ := writeBytes_ok c₃ (1 + off) digest (by omega)
    simp only [hoff, hc₃, kRtmpHandShakePacketSize, hdigest, hc₄, ok_bind]
    exact ⟨c₄, rfl⟩
  · obtain ⟨c₃, hc₃, -⟩ := writeBytes_ok c₂ 5 [0, 0, 0, 0] (by rw [hlen₂]; decide)
    rw [hc₃, ok_bind]
    exact ⟨c₃, rfl⟩

theorem createC2S2_ok (hm : HmacSha256) (hs : RtmpHandShake) (nonce : Nonce) (data : List UInt8)
    (offset : Nat) (hdata : 1536 ≤ data.length) (hoff : offset + 32 ≤ 1536) :
    ∃ c2s2, hs.createC2S2 hm nonce data offset = .ok { hs with c2s2 } := by
  have hlen : ((List.range kRtmpHandShakePacketSize).map nonce.random).length = 1536 := by
    rw [List.length_map, List.length_range]
    rfl
  have hfront : ((data.drop 0).take 8).length = 8 := by
    rw [List.length_take, List.length_drop]
    omega
  obtain ⟨c₁, hc₁, hlen₁⟩ := writeBytes_ok _ 0 ((data.drop 0).take 8) (by rw [hlen, hfront]; decide)
  rw [hlen] at hlen₁
  obtain ⟨c₂, hc₂, hlen₂⟩ := writeBytes_ok c₁ 0 (BytesWriter.writeUint32T nonce.now)
    (by rw [hlen₁, BytesWriter.writeUint32T, Lib.Words.beBytes_length]; decide)
  rw [hlen₁] at hlen₂
  unfold RtmpHandShake.createC2S2
  rw [readBytes_of_le (by omega)]
  simp only [hc₁, hc₂, ok_bind]
  split
  · have hdrop : 32 ≤ (data.drop offset).length := by rw [List.length_drop]; omega
    obtain ⟨digest, hdigest, -⟩ := calculateDigest_ok hm (data.drop offset)
      (bif hs.isClient then rtmpPlayerKey else rtmpServerKey) (by omega : 0 + 32 ≤ 32) (by omega)
    obtain ⟨last, hlast, hlastLen⟩ := calculateDigest_ok hm c₂ digest (by omega : 0 + 32 ≤ 1504) (by omega)
    obtain ⟨c₃, hc₃, -⟩ := writeBytes_ok c₂ 1504 last (by omega)
    have hsize : kRtmpHandShakePacketSize - 32 = 1504 := rfl
    simp only [hdigest, hsize, hlast, hc₃, ok_bind]
    exact ⟨c₃, rfl⟩
  · exact ⟨c₂, rfl⟩

end Packets

/-- The role takes a first packet of the other side. -/
def accepts (hm : HmacSha256) (client : Bool) (packet : List UInt8) : Bool :=
  match checkC1S1 hm client true packet with
  | .ok ⟨_, some _⟩ => true
  | _ => false

theorem checkC1S1_simple (hm : HmacSha256) (client isComplex : Bool) (a b c d : UInt8) (v : List UInt8) :
    checkC1S1 hm client isComplex ([3, a, b, c, d, 0, 0, 0, 0] ++ v) = .ok ⟨false, some 0⟩ := by
  have hlen : [3, a, b, c, d, 0, 0, 0, 0].length = 9 := rfl
  have hfront : readUint8T ([3, a, b, c, d, 0, 0, 0, 0] ++ v) 0 = .ok 3 := by
    unfold readUint8T
    rw [readBytes_append v (by rw [hlen]; decide)]
    rfl
  have hversion : copyUint32 ([3, a, b, c, d, 0, 0, 0, 0] ++ v) 5 = .ok 0 := by
    unfold copyUint32
    rw [readBytes_append v (by rw [hlen])]
    rfl
  unfold checkC1S1
  rw [hfront, hversion]
  rfl

/-- Either role takes a first packet of the simple handshake: its version field is zero. -/
theorem accepts_simple (hm : HmacSha256) (client : Bool) (v : List UInt8) :
    accepts hm client ([3, 0, 0, 0, 0, 0, 0, 0, 0] ++ v) = true := by
  rw [accepts, checkC1S1_simple]

/-- The digest the program links against. -/
def hmacSha256 : HmacSha256 where
  digest := Lib.Sha256.hmac
  length_eq := Lib.Sha256.hmac_length

section Receive
variable {hm : HmacSha256} {hs : RtmpHandShake} {nonce : Nonce} {buf : List UInt8} {next : HandShakeState}
  {send : RtmpHandShake → List UInt8}

theorem receiveC1S1_reject (hbuf : 1537 ≤ buf.length) (hcomplex : hs.isComplexHandshake = true)
    (hno : accepts hm hs.isClient (buf.take 1537) = false) :
    hs.receiveC1S1 hm nonce buf next send = .ok { hs, buf, ret := -1 } := by
  have hd : (buf.take 1537).length = 1537 := by rw [List.length_take]; omega
  obtain ⟨hsame, ⟨isComplex, offset⟩, hc, hsound⟩ :=
    checkC1S1_reads hm hs.isClient true (buf.drop 1537) hd
  rw [List.take_append_drop] at hsame
  unfold accepts at hno
  rw [hc] at hno
  unfold RtmpHandShake.receiveC1S1
  rw [hcomplex, hsame, hc, ok_bind]
  cases offset with
  | some off => exact absurd hno nofun
  | none =>
      obtain rfl : isComplex = true := hsound.keeps rfl
      rw [← hcomplex]
      rfl

theorem receiveC1S1_accept (nonce : Nonce) (next : HandShakeState)
    (send : RtmpHandShake → List UInt8)
    (hbuf : 1537 ≤ buf.length) (hcomplex : hs.isComplexHandshake = true)
    (hyes : accepts hm hs.isClient (buf.take 1537) = true) :
    ∃ hs' bs, hs.receiveC1S1 hm nonce buf next send = .ok
        { hs := hs', buf := buf.drop 1537, retrieved := [buf.take 1537], sent := [bs], ret := 1 } ∧
      hs'.state = next ∧ hs'.isClient = hs.isClient := by
  have hd : (buf.take 1537).length = 1537 := by rw [List.length_take]; omega
  obtain ⟨hsame, ⟨isComplex, offset⟩, hc, hsound⟩ :=
    checkC1S1_reads hm hs.isClient true (buf.drop 1537) hd
  rw [List.take_append_drop] at hsame
  unfold accepts at hyes
  rw [hc] at hyes
  unfold RtmpHandShake.receiveC1S1
  rw [hcomplex, hsame, hc, ok_bind]
  cases offset with
  | none => exact absurd hyes nofun
  | some off =>
      obtain ⟨c2s2, hc2s2⟩ := createC2S2_ok hm { hs with isComplexHandshake := isComplex } nonce
        (buf.drop 1) off (by rw [List.length_drop]; omega) (hsound.offset_le off rfl)
      dsimp only
      rw [hc2s2, ok_bind]
      exact ⟨_, _, rfl, rfl, rfl⟩

end Receive

end TmmsServer
